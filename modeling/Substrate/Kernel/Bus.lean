/- ID: Substrate/Kernel/Bus
   source: kernel/sdk/rust/src/lib.rs
   digest: Live subscriptions on bounded channels, and the clients that publish and receive. -/

import Substrate.Kernel.Api
import Substrate.Library.Broadcast

set_option autoImplicit false
set_option relaxedAutoImplicit false

namespace Substrate.Kernel.Bus

open Substrate.Kernel.Wire
open Substrate.Kernel.Hashing
open Substrate.Kernel.Memory
open Substrate.Kernel.Api
open Substrate.Library.Broadcast

/-- Bound on a single subscriber's undelivered-event backlog. -/
def subscriberBuffer : Nat := 1024

structure Subscription where
  module : String := ""
  topics : List String

/-- The kernel's state with the subscriptions it serves. -/
structure Live where
  state : State := {}
  bus : Bus String Event := {}

/-- One signal on the kernel's channels. -/
def signal (s : Signal String Event) (bus : Bus String Event) : Bus String Event :=
  bus.step (·.topic) subscriberBuffer s

/-- The answer is the number of the channel whose receiver the client gets. -/
def subscribe (sub : Subscription) (live : Live) : Live × Nat :=
  ({ live with bus := signal (.subscribe sub.topics) live.bus }, live.bus.next)

variable [Sha256] [Prost]

/-- Assigns the next `seq`, offers the event to exactly the subscribers of its topic and logs it. -/
def publish (event : Event) (live : Live) : Live × UInt64 :=
  let (state, seq) := Registry.publish event live.state
  ({ state, bus := signal (.publish { event with seq }) live.bus }, seq)

/-- What any client may do next: subscribe, take an event, drop a receiver, or call the kernel. -/
inductive ClientOp
  | subscribe (sub : Subscription)
  | receive (rx : Nat)
  | hangUp (rx : Nat)
  | call (call : Call)

def clientStep (policy : ArtifactStorePolicy) (live : Live) : ClientOp → Live
  | .subscribe sub => (subscribe sub live).1
  | .receive rx => { live with bus := signal (.receive rx) live.bus }
  | .hangUp rx => { live with bus := signal (.hangUp rx) live.bus }
  | .call call =>
      match call.op with
      | .publish event => (publish event live).1
      | _ => { live with state := (step policy live.state call).1 }

/-- The kernel after the operations of any number of clients, interleaved. -/
def clientExec (policy : ArtifactStorePolicy) (live : Live) (ops : List ClientOp) : Live :=
  Substrate.Library.Transition.run (clientStep policy) live ops

end Substrate.Kernel.Bus
