/- ID: Substrate/Kernel/Concrete
   source: kernel/sdk/rust/src/lib.rs
   digest: The kernel over SHA-256 and protobuf themselves, and the calls that open a one-node run. -/

import Substrate.Library.Sha2
import Substrate.Kernel.Api
import Substrate.Kernel.Codec

set_option autoImplicit false
set_option relaxedAutoImplicit false

namespace Substrate.Kernel.Concrete

open Substrate.Kernel.Wire
open Substrate.Kernel.Hashing
open Substrate.Kernel.Memory
open Substrate.Kernel.Store (normalizeStorePolicy)
open Substrate.Kernel.Api

scoped instance sha256 : Sha256 := ⟨Substrate.Library.Sha2.sha256⟩

scoped instance prost : Prost := ⟨Substrate.Kernel.Codec.encode⟩

/-- The store policy of `MemoryKernel::new`. -/
def policy : ArtifactStorePolicy := normalizeStorePolicy {}

/-- Both clock readings at `ms`; hash maps list their keys as they store them. -/
def envAt (ms : Int64) : Env :=
  { entryClock := ms, now := ms, iter := id, iter_perm := fun _ => .refl _ }

def callAt (ms : Int64) (op : Op) : Call := { op, env := envAt ms }

/-- `echo@1` says what it hears. -/
def echo (firing : Firing) : ModuleManifest :=
  { name := "echo", version := "1"
    provides := [{ name := "say", inputs := [{ name := "heard", traits := ["text"] }]
                   outputs := [{ name := "said", traits := ["text"] }], firing := firing.asI32 }] }

def text (words : String) : Artifact :=
  { traits := .singleton "text" { body := asBytes words } }

/-- An artifact under a port or input name. -/
def given (name : String) (artifact : Artifact) : NamedArtifact :=
  { name, artifact := some ⟨artifactIdOf artifact⟩ }

/-- The node `n` hears the run input `line`, and what it says is the answer. -/
def echoes : Assembly :=
  { id := "echoes", nodes := [⟨"n", "echo", "1", "say"⟩]
    bindings := [{ toNode := "n", toPort := "heard", input := "line" }]
    terminal := some ⟨"n", "said"⟩ }

def echoRequest (closure : Closure) : RunRequest :=
  { id := "r", assembly := some echoes, inputs := [given "line" (text "one")]
    policy := some { closure := closure.asI32 } , limits := some { maxSteps := 9 } }

/-- Register `echo` and store the first line. -/
def stocked (firing : Firing) : List Call :=
  [callAt 0 (.register (echo firing)), callAt 0 (.putArtifact (text "one"))]

def startCall (closure : Closure) : Call := callAt 0 (.startRun (echoRequest closure))

def opening (firing : Firing) (closure : Closure) : List Call :=
  stocked firing ++ [startCall closure]

def claimAt (ms : Int64) : Call := callAt ms (.claimReady { runId := "r" })

/-- Commit a work id of the run with one line as the output. -/
def commitAt (ms : Int64) (workId : String) (line : Artifact) : Call :=
  callAt ms (.commit { runId := "r", workId, outputs := [given "said" line] })

end Substrate.Kernel.Concrete
