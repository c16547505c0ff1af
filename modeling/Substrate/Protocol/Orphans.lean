/- ID: Substrate/Protocol/Orphans
   digest: What every part of a drive does to the units it is handed: which it releases, and how it stops. -/

import Mathlib.Data.Multiset.Basic
import Mathlib.Algebra.BigOperators.Group.Multiset.Basic
import Substrate.Kernel.Concrete
import Substrate.Framework.Drive
import Substrate.Framework.InProcess

set_option autoImplicit false
set_option relaxedAutoImplicit false

namespace Substrate.Protocol.Orphans

open Substrate.Kernel.Wire
open Substrate.Kernel.Hashing
open Substrate.Kernel.Memory (KernelError)
open Substrate.Framework.Steps
open Substrate.Framework.Storage
open Substrate.Framework.Policy
open Substrate.Framework.Calls
open Substrate.Framework.Drive
open Substrate.Library.Resumption
open Substrate.Library.Resumption.Act
open Substrate.Library.Resumption.Prog (Environment Runs exec transcript runs_exec)

abbrev Told := List (Exchange Query Answer)

def handedBy : Exchange Query Answer → Multiset WorkItem
  | ⟨.claimReady _ _, .ok resp⟩ => resp.1.items
  | _ => 0

def releasedBy : Exchange Query Answer → Multiset String
  | ⟨.commit submitted _, .ok _⟩ => {submitted.workId}
  | ⟨.failWork req _, .ok _⟩ => {req.workId}
  | _ => 0

/-- The units that claims have handed out. -/
def handed (told : Told) : Multiset WorkItem := (told.map handedBy).sum

/-- The work ids that accepted commits and failures have released. -/
def released (told : Told) : Multiset String := (told.map releasedBy).sum

/-- An answer that is an error. -/
def refuses : Exchange Query Answer → Bool
  | ⟨.startRun _ _, answer⟩ => !Except.isOk answer
  | ⟨.getRun _ _, answer⟩ => !Except.isOk answer
  | ⟨.claimReady _ _, answer⟩ => !Except.isOk answer
  | ⟨.getArtifact _ _, answer⟩ => !Except.isOk answer
  | ⟨.putArtifact _ _, answer⟩ => !Except.isOk answer
  | ⟨.commit _ _, answer⟩ => !Except.isOk answer
  | ⟨.failWork _ _, answer⟩ => !Except.isOk answer
  | ⟨.execute _ _, answer⟩ => !Except.isOk (Prod.snd answer)
  | ⟨.memoGet _, answer⟩ => !Except.isOk answer
  | ⟨.memoPut _, answer⟩ => !Except.isOk answer
  | ⟨.ensureTable _, answer⟩ => !Except.isOk answer
  | ⟨.writeRows _ _ _ _ _, answer⟩ => !Except.isOk answer
  | ⟨.dropTable _, answer⟩ => !Except.isOk answer
  | ⟨.toVec _, answer⟩ => !Except.isOk answer
  | _ => false

def isFailure : Exchange Query Answer → Bool
  | ⟨.failWork _ _, _⟩ => true
  | _ => false

/-- An error that an act may stop on; after one of `execute` it goes on to hand the unit back. -/
def stops : Exchange Query Answer → Bool
  | ⟨.execute _ _, _⟩ => false
  | e => refuses e

theorem refuses_of_stops {e : Exchange Query Answer} (stopped : stops e = true) :
    refuses e = true := by
  obtain ⟨q, answer⟩ := e
  cases q <;> first | exact stopped | cases stopped

/-- Calls between the claim of a unit and its commit. -/
def Early : Query → Prop
  | .getArtifact _ _ | .putArtifact _ _ | .toVec _ | .memoGet _ | .moduleDigest _ | .onInit _ _
  | .execute _ _ | .onFinal _ _ _ => True
  | _ => False

/-- Calls after the commit of a unit. -/
def Late : Query → Prop
  | .moduleDigest _ | .memoPut _ | .onStore _ _ _ | .ensureTable _ | .writeRows _ _ _ _ _ => True
  | _ => False

/-- Calls between two waves and after the last. -/
def Idle : Query → Prop
  | .getRun _ _ | .dropTable _ => True
  | _ => False

def NoFailure (told : Told) : Prop := ∀ e ∈ told, isFailure e = false

theorem handed_append (first second : Told) :
    handed (first ++ second) = handed first + handed second := by
  rw [handed, List.map_append, List.sum_append]
  rfl

theorem released_append (first second : Told) :
    released (first ++ second) = released first + released second := by
  rw [released, List.map_append, List.sum_append]
  rfl

theorem noFailure_append {first second : Told} :
    NoFailure (first ++ second) ↔ NoFailure first ∧ NoFailure second :=
  List.forall_mem_append

theorem handed_single (e : Exchange Query Answer) : handed [e] = handedBy e := by
  simp [handed]

theorem released_single (e : Exchange Query Answer) : released [e] = releasedBy e := by
  simp [released]

/-- What a part of a call does to the units it is given and those it is handed: it releases no
others; when it succeeds it has released them all; when it stops, the last answer was an error, some
unit had no plugin, or the last exchange was the failure of a unit. -/
structure Outcome (host : Host) (items : Multiset WorkItem) (told : Told) (ok : Bool) : Prop where
  within : released told ≤ (items + handed told).map (·.id)
  plugged : (released told).card = (items + handed told).card →
    ∀ work ∈ items + handed told, work.module ∈ host.plugins
  done : ok = true → (released told).card = (items + handed told).card ∧ NoFailure told
  stopped : ok = false →
    (NoFailure told ∧ ((∃ before last, told = before ++ [last] ∧ refuses last = true) ∨
      ∃ work ∈ items + handed told, work.module ∉ host.plugins)) ∨
    ∃ before last, told = before ++ [last] ∧ isFailure last = true ∧ NoFailure before ∧
      (released before).card < (items + handed before).card

variable {host : Host}

namespace Outcome

variable {xs ys : Multiset WorkItem} {first second told : Told} {ok : Bool}

theorem card_le (outcome : Outcome host xs told ok) :
    (released told).card ≤ (xs + handed told).card := by
  have bound := Multiset.card_le_card outcome.within
  rwa [Multiset.card_map] at bound

theorem nothing : Outcome host 0 [] true :=
  ⟨le_refl 0, fun _ work member => absurd member (Multiset.notMem_zero work),
    fun _ => ⟨rfl, fun _ member => nomatch member⟩, fun stop => nomatch stop⟩

theorem exchange {e : Exchange Query Answer} (claims : handedBy e = 0) (releases : releasedBy e = 0)
    (calm : isFailure e = false) (cause : ok = false → refuses e = true) :
    Outcome host 0 [e] ok := by
  have silent : handed [e] = 0 := (handed_single e).trans claims
  have none : released [e] = 0 := (released_single e).trans releases
  have calm' : NoFailure [e] := List.forall_mem_singleton.mpr calm
  refine ⟨?_, ?_, fun _ => ⟨?_, calm'⟩, fun stop => .inl ⟨calm', .inl ⟨[], e, rfl, cause stop⟩⟩⟩
  · rw [none]
    exact Multiset.zero_le _
  · intro _ work member
    rw [silent, add_zero] at member
    exact absurd member (Multiset.notMem_zero work)
  · rw [none, silent]
    rfl

private theorem owed_append (xs ys : Multiset WorkItem) (first second : Told) :
    xs + ys + handed (first ++ second) = (xs + handed first) + (ys + handed second) := by
  rw [handed_append, add_add_add_comm]

theorem seq (before : Outcome host xs first true) (after : Outcome host ys second ok) :
    Outcome host (xs + ys) (first ++ second) ok := by
  obtain ⟨full, calm⟩ := before.done rfl
  refine ⟨?_, ?_, ?_, ?_⟩
  · rw [owed_append, released_append, Multiset.map_add]
    exact add_le_add before.within after.within
  · intro all work member
    rw [owed_append] at all member
    rw [released_append, Multiset.card_add, Multiset.card_add, full, Nat.add_left_cancel_iff] at all
    exact (Multiset.mem_add.mp member).elim (before.plugged full work) (after.plugged all work)
  · intro succeeded
    obtain ⟨full', calm'⟩ := after.done succeeded
    rw [owed_append, released_append, Multiset.card_add, Multiset.card_add, full, full']
    exact ⟨rfl, noFailure_append.mpr ⟨calm, calm'⟩⟩
  · intro failed
    rcases after.stopped failed with ⟨calm', cause⟩ | ⟨pre, last, rfl, failure, calm', less⟩
    · refine .inl ⟨noFailure_append.mpr ⟨calm, calm'⟩, ?_⟩
      rcases cause with ⟨pre, last, rfl, refused⟩ | ⟨work, member, missing⟩
      · exact .inl ⟨first ++ pre, last, (List.append_assoc ..).symm, refused⟩
      · refine .inr ⟨work, ?_, missing⟩
        rw [owed_append]
        exact Multiset.mem_add.mpr (.inr member)
    · refine .inr ⟨first ++ pre, last, (List.append_assoc ..).symm, failure,
        noFailure_append.mpr ⟨calm, calm'⟩, ?_⟩
      rw [owed_append, released_append, Multiset.card_add, Multiset.card_add, full]
      exact Nat.add_lt_add_left less _

theorem stop (outcome : Outcome host xs told false) (ys : Multiset WorkItem) :
    Outcome host (xs + ys) told false := by
  have swap : xs + ys + handed told = (xs + handed told) + ys := add_right_comm xs ys _
  refine ⟨?_, ?_, (fun succeeded => nomatch succeeded), fun failed => ?_⟩
  · rw [swap, Multiset.map_add]
    exact outcome.within.trans (Multiset.le_add_right _ _)
  · intro all
    rw [swap, Multiset.card_add] at all
    have bound := outcome.card_le
    obtain rfl : ys = 0 := Multiset.card_eq_zero.mp (by omega)
    rw [add_zero] at *
    exact outcome.plugged (by simpa using all)
  · rcases outcome.stopped failed with ⟨calm, cause⟩ | ⟨pre, last, rfl, failure, calm, less⟩
    · refine .inl ⟨calm, cause.imp_right ?_⟩
      rintro ⟨work, member, missing⟩
      rw [swap]
      exact ⟨work, Multiset.mem_add.mpr (.inl member), missing⟩
    · refine .inr ⟨pre, last, rfl, failure, calm, ?_⟩
      rw [add_right_comm, Multiset.card_add]
      exact Nat.lt_add_right _ less

theorem single {work : WorkItem} {e : Exchange Query Answer} (claims : handedBy e = 0)
    (releases : releasedBy e = if ok then {work.id} else 0) (calm : isFailure e = false)
    (cause : ok = false → refuses e = true) (plugged : work.module ∈ host.plugins) :
    Outcome host {work} [e] ok := by
  have silent : handed [e] = 0 := (handed_single e).trans claims
  have gone : released [e] = if ok then {work.id} else 0 := (released_single e).trans releases
  have calm' : NoFailure [e] := List.forall_mem_singleton.mpr calm
  refine ⟨?_, ?_, fun succeeded => ⟨?_, calm'⟩,
    fun stop => .inl ⟨calm', .inl ⟨[], e, rfl, cause stop⟩⟩⟩
  · rw [gone, silent, add_zero, Multiset.map_singleton]
    split
    · exact le_refl _
    · exact Multiset.zero_le _
  · intro _ other member
    rw [silent, add_zero, Multiset.mem_singleton] at member
    exact member ▸ plugged
  · rw [gone, silent, if_pos succeeded]
    rfl

theorem failure {work : WorkItem} {e : Exchange Query Answer} (claims : handedBy e = 0)
    (releases : releasedBy e ≤ {work.id}) (failing : isFailure e = true)
    (plugged : work.module ∈ host.plugins) : Outcome host {work} [e] false := by
  have silent : handed [e] = 0 := (handed_single e).trans claims
  refine ⟨?_, ?_, (fun succeeded => nomatch succeeded), fun _ => .inr ⟨[], e, rfl, failing,
    (fun _ member => nomatch member), Nat.zero_lt_one⟩⟩
  · rw [released_single, silent, add_zero, Multiset.map_singleton]
    exact releases
  · intro _ other member
    rw [silent, add_zero, Multiset.mem_singleton] at member
    exact member ▸ plugged

theorem missing {work : WorkItem} (missing : work.module ∉ host.plugins) :
    Outcome host {work} [] false := by
  refine ⟨Multiset.zero_le _, (fun all => nomatch all), (fun succeeded => nomatch succeeded),
    fun _ => .inl ⟨(fun _ member => nomatch member), .inr ⟨work, ?_, missing⟩⟩⟩
  exact Multiset.mem_add.mpr (.inl (Multiset.mem_singleton_self work))

theorem claimed {items : List WorkItem} {e : Exchange Query Answer} (claims : handedBy e = items)
    (releases : releasedBy e = 0) (calm : isFailure e = false)
    (rest : Outcome host items told ok) : Outcome host 0 (e :: told) ok := by
  have owed (after : Told) : 0 + handed (e :: after) = items + handed after := by
    rw [zero_add, ← List.singleton_append, handed_append, handed_single, claims]
  have gone (after : Told) : released (e :: after) = released after := by
    rw [← List.singleton_append, released_append, released_single, releases, zero_add]
  have calm' (after : Told) : NoFailure (e :: after) ↔ NoFailure after :=
    List.forall_mem_cons.trans (and_iff_right calm)
  refine ⟨?_, ?_, ?_, fun failed => ?_⟩
  · rw [owed, gone]
    exact rest.within
  · rw [owed, gone]
    exact rest.plugged
  · rw [owed, gone, calm']
    exact rest.done
  · rcases rest.stopped failed with ⟨quiet, cause⟩ | ⟨pre, last, rfl, failure, quiet, less⟩
    · refine .inl ⟨(calm' told).mpr quiet, ?_⟩
      rw [owed]
      exact cause.imp_left fun ⟨pre, last, same, refused⟩ =>
        ⟨e :: pre, last, congrArg (e :: ·) same, refused⟩
    · refine .inr ⟨e :: pre, last, rfl, failure, (calm' pre).mpr quiet, ?_⟩
      rw [owed, gone]
      exact less

end Outcome

/-- Whatever it is told, an act has an outcome for the units. -/
abbrev Finishes {α : Type} (items : Multiset WorkItem) (x : HostAct host α) : Prop :=
  Upholds (fun told r => Outcome host items told r.isOk) x

/-- Exchanges of calls of one kind that concern no unit, the last of them an error when an act has
stopped there. -/
structure Aside (K : Query → Prop) (told : Told) (ok : Bool) : Prop where
  among : ∀ e ∈ told, K e.1
  silent : ∀ e ∈ told, handedBy e = 0 ∧ releasedBy e = 0 ∧ isFailure e = false
  stopped : ok = false → ∃ before last, told = before ++ [last] ∧ stops last = true

namespace Aside

variable {K : Query → Prop} {first second told : Told} {ok : Bool}

theorem nothing : Aside K [] true :=
  ⟨List.forall_mem_nil _, List.forall_mem_nil _, fun stop => nomatch stop⟩

theorem single {e : Exchange Query Answer} (among : K e.1)
    (silent : handedBy e = 0 ∧ releasedBy e = 0 ∧ isFailure e = false)
    (cause : ok = false → stops e = true) : Aside K [e] ok :=
  ⟨List.forall_mem_singleton.mpr among, List.forall_mem_singleton.mpr silent,
    fun stop => ⟨[], e, rfl, cause stop⟩⟩

theorem seq (before : Aside K first true) (after : Aside K second ok) :
    Aside K (first ++ second) ok := by
  refine ⟨List.forall_mem_append.mpr ⟨before.among, after.among⟩,
    List.forall_mem_append.mpr ⟨before.silent, after.silent⟩, fun failed => ?_⟩
  obtain ⟨pre, last, rfl, refused⟩ := after.stopped failed
  exact ⟨first ++ pre, last, (List.append_assoc ..).symm, refused⟩

theorem handed (aside : Aside K told ok) : handed told = 0 :=
  List.sum_eq_zero fun _ member => by
    obtain ⟨e, listed, rfl⟩ := List.mem_map.mp member
    exact (aside.silent e listed).1

theorem released (aside : Aside K told ok) : released told = 0 :=
  List.sum_eq_zero fun _ member => by
    obtain ⟨e, listed, rfl⟩ := List.mem_map.mp member
    exact (aside.silent e listed).2.1

theorem outcome (aside : Aside K told ok) : Outcome host 0 told ok := by
  have calm : NoFailure told := fun e listed => (aside.silent e listed).2.2
  refine ⟨?_, ?_, fun _ => ⟨?_, calm⟩, fun stop => ?_⟩
  · rw [aside.released]
    exact Multiset.zero_le _
  · intro _ work member
    rw [aside.handed, add_zero] at member
    exact absurd member (Multiset.notMem_zero work)
  · rw [aside.released, aside.handed]
    rfl
  · obtain ⟨before, last, same, stopped⟩ := aside.stopped stop
    exact .inl ⟨calm, .inl ⟨before, last, same, refuses_of_stops stopped⟩⟩

end Aside

/-- An act that makes calls of one kind only, and no call that claims or releases a unit. -/
abbrev Quiet {α : Type} (K : Query → Prop) (x : HostAct host α) : Prop :=
  Upholds (fun told r => Aside K told r.isOk) x

section Rules

variable {K : Query → Prop} {α β : Type} {xs ys : Multiset WorkItem} {x : HostAct host α}
  {f : α → HostAct host β}

theorem Finishes.bind (first : Finishes xs x) (second : ∀ a, Finishes ys (f a)) :
    Finishes (xs + ys) (x >>= f) :=
  Upholds.bind first (fun a _ _ => second a) (fun _ _ stopped => stopped.stop ys)
    fun _ _ _ _ before after => Outcome.seq before after

theorem Quiet.finishes (quiet : Quiet K x) : Finishes 0 x := quiet.mono fun _ _ h => h.outcome

theorem Quiet.pure (a : α) : Quiet K (pure a : HostAct host α) := Upholds.pure .nothing

theorem Quiet.bind (first : Quiet K x) (second : ∀ a, Quiet K (f a)) :
    Quiet K (x >>= f) :=
  Upholds.bind first (fun a _ _ => second a) (fun _ _ stopped => stopped)
    fun _ _ _ _ before after => before.seq after

theorem Finishes.before (first : Finishes 0 x) (second : ∀ a, Finishes ys (f a)) :
    Finishes ys (x >>= f) := by
  have both := first.bind second
  rwa [zero_add] at both

theorem Quiet.before (first : Quiet K x) (second : ∀ a, Finishes ys (f a)) :
    Finishes ys (x >>= f) :=
  first.finishes.before second

theorem Quiet.beforeKnown {P : Except FrameworkError α → Prop} (first : Quiet K x)
    (known : Upholds (fun _ r => P r) x) (second : ∀ a, P (.ok a) → Finishes ys (f a)) :
    Finishes ys (x >>= f) :=
  Upholds.bind (first.and known) (fun a _ held => second a held.2)
    (fun _ _ stopped => zero_add ys ▸ stopped.1.outcome.stop ys)
    fun _ _ _ _ before after => zero_add ys ▸ before.1.outcome.seq after

theorem Finishes.pure (a : α) : Finishes 0 (pure a : HostAct host α) := Upholds.pure .nothing

theorem Finishes.andThen (first : Finishes xs x) (second : ∀ a, Finishes 0 (f a)) :
    Finishes xs (x >>= f) := by
  have both := first.bind second
  rwa [add_zero] at both

theorem Quiet.modify (f : Books host → Books host) :
    Quiet K (modify f : HostAct host PUnit) :=
  Upholds.modify .nothing

theorem Quiet.attempt (quiet : Quiet K x) : Quiet K (attempt x) :=
  Upholds.attempt quiet fun _ _ h => ⟨h.among, h.silent, fun stop => nomatch stop⟩

/-- A call that claims nothing, releases nothing and fails no unit. -/
def Plain (q : Query) : Prop := ∀ answer : Answer q,
  handedBy ⟨q, answer⟩ = 0 ∧ releasedBy ⟨q, answer⟩ = 0 ∧ isFailure ⟨q, answer⟩ = false

theorem Quiet.ask {q : Query} (plain : Plain q) (among : K q) :
    Quiet K (ask q : HostAct host (Answer q)) :=
  Upholds.ask fun answer => .single among (plain answer) fun stop => nomatch stop

theorem Quiet.call {q : Query} {read : Answer q → HostAct host α} (plain : Plain q) (among : K q)
    (early : ∀ answer : Answer q, (∃ a, read answer = Pure.pure a) ∨
      stops ⟨q, answer⟩ = true ∧ ∃ e, read answer = throw e) :
    Quiet K (Act.ask q >>= read) :=
  Upholds.asked fun answer => by
    rcases early answer with ⟨a, same⟩ | ⟨refused, e, same⟩ <;> rw [same]
    · exact Upholds.pure (.single among (plain answer) fun stop => nomatch stop)
    · exact Upholds.throw (.single among (plain answer) fun _ => refused)

theorem Quiet.forM {l : List β} {g : β → HostAct host PUnit} (each : ∀ b ∈ l, Quiet K (g b)) :
    Quiet K (l.forM g) := by
  induction l with
  | nil => exact .pure _
  | cons b l ih =>
      exact (each b List.mem_cons_self).bind fun _ =>
        ih fun c member => each c (List.mem_cons_of_mem _ member)

theorem requireStorage_quiet {reason : String} (backed : host.storage = true) :
    Quiet K (requireStorage reason : HostAct host Unit) := by
  rw [requireStorage, if_pos backed]
  exact .pure _

theorem requirePlugin_quiet {module : String} (plugged : module ∈ host.plugins) :
    Quiet K (requirePlugin module : HostAct host Unit) := by
  rw [requirePlugin, if_pos plugged]
  exact .pure _

end Rules

theorem requirePlugin_missing {α : Type} {work : WorkItem} (missing : work.module ∉ host.plugins)
    {f : Unit → HostAct host α} : Finishes {work} (requirePlugin work.module >>= f) := by
  rw [requirePlugin, if_neg missing]
  exact Upholds.throw (.missing missing)

private theorem fromKernel_early {α : Type} (answer : Except KernelError α) :
    (∃ a, (fromKernel answer : HostAct host α) = pure a) ∨
      (!Except.isOk answer) = true ∧ ∃ e, (fromKernel answer : HostAct host α) = throw e := by
  cases answer with
  | ok a => exact .inl ⟨a, rfl⟩
  | error e => exact .inr ⟨rfl, _, rfl⟩

private theorem fromFramework_early {α : Type} (answer : Except FrameworkError α) :
    (∃ a, (fromFramework answer : HostAct host α) = pure a) ∨
      (!Except.isOk answer) = true ∧ ∃ e, (fromFramework answer : HostAct host α) = throw e := by
  cases answer with
  | ok a => exact .inl ⟨a, rfl⟩
  | error e => exact .inr ⟨rfl, _, rfl⟩

theorem getRun_quiet (runId : String) : Quiet Idle (getRun runId : HostAct host Run) :=
  .call (fun _ => ⟨rfl, rfl, rfl⟩) trivial fromKernel_early

theorem getArtifact_quiet (ref : ArtifactRef) : Quiet Early (getArtifact ref : HostAct host Artifact) :=
  .call (fun _ => ⟨rfl, rfl, rfl⟩) trivial fromKernel_early

theorem putArtifact_quiet (artifact : Artifact) :
    Quiet Early (putArtifact artifact : HostAct host ArtifactRef) :=
  .call (fun _ => ⟨rfl, rfl, rfl⟩) trivial fromKernel_early

theorem memoGet_quiet (key : String) : Quiet Early (memoGet key : HostAct host _) :=
  .call (fun _ => ⟨rfl, rfl, rfl⟩) trivial fromFramework_early

theorem memoPut_quiet (record : Substrate.Framework.Memo.MemoRecord) :
    Quiet Late (memoPut record : HostAct host Unit) :=
  .call (fun _ => ⟨rfl, rfl, rfl⟩) trivial fromFramework_early

theorem ensureTable_quiet (table : QualifiedTable) :
    Quiet Late (ensureTable table : HostAct host Unit) :=
  .call (fun _ => ⟨rfl, rfl, rfl⟩) trivial fromFramework_early

theorem writeRows_quiet (table : String) (mode : WriteMode) (rows : List StoreRow)
    (primaryKey : List String) (runId : String) :
    Quiet Late (writeRows table mode rows primaryKey runId : HostAct host Unit) :=
  .call (fun _ => ⟨rfl, rfl, rfl⟩) trivial fromFramework_early

theorem toVec_quiet (view : Presentation) : Quiet Early (toVec view : HostAct host Bytes) :=
  .call (fun _ => ⟨rfl, rfl, rfl⟩) trivial fun answer => by
    cases answer with
    | ok body => exact .inl ⟨body, rfl⟩
    | error e => exact .inr ⟨rfl, _, rfl⟩

theorem policyOf_quiet {K : Query → Prop} (runId : String) :
    Quiet K (policyOf runId : HostAct host _) :=
  Quiet.bind (Upholds.get fun _ => .nothing) fun _ => .pure _

theorem emitPresentation_quiet (module : String) (p : Presentation) :
    Quiet Early (emitPresentation module p : HostAct host Unit) := by
  refine Quiet.bind ?_ fun _ => .modify _
  unfold maybePutUi
  split
  · exact .pure _
  · exact (toVec_quiet p).bind fun _ => (putArtifact_quiet _).bind fun _ => .pure _

theorem emitOptional_quiet (module : String) (shown : Option Presentation) :
    Quiet Early (emitOptional module shown : HostAct host Unit) := by
  cases shown with
  | none => exact .pure _
  | some p => exact emitPresentation_quiet module p

private theorem writeStore_quiet (backed : host.storage = true) (plan : StoragePlan)
    (runId module : String) (schema : TableSchema) (step : StepContext)
    (write : Option StoreWrite) :
    Quiet Late (writeStore plan runId module schema step write : HostAct host Unit) := by
  cases write with
  | none => exact .pure _
  | some write =>
      rw [writeStore]
      split
      · exact .pure _
      · exact (requireStorage_quiet backed).bind fun _ => writeRows_quiet _ _ _ _ _

private theorem writeModuleRows_quiet (backed : host.storage = true) {module : String}
    (plugged : module ∈ host.plugins) (plan : StoragePlan) (runId : String) (step : StepContext)
    (result : StepResult) :
    Quiet Late (writeModuleRows plan runId module step result : HostAct host Unit) := by
  unfold writeModuleRows
  split
  · exact .pure _
  · split
    · exact .pure _
    · exact (requirePlugin_quiet plugged).bind fun _ =>
        (Quiet.ask (fun _ => ⟨rfl, rfl, rfl⟩) trivial).bind fun _ => writeStore_quiet backed _ _ _ _ _ _

private theorem writeStepLog_quiet (backed : host.storage = true) (plan : StoragePlan)
    (runId module : String) (step : StepContext) (result : StepResult) :
    Quiet Late (writeStepLog plan runId module step result : HostAct host Unit) := by
  unfold writeStepLog
  split
  · exact .pure _
  · exact (requireStorage_quiet backed).bind fun _ =>
      (ensureTable_quiet _).bind fun _ => writeRows_quiet _ _ _ _ _

theorem applyStepStorage_quiet {module : String} (plugged : module ∈ host.plugins)
    (runId : String) (step : StepContext) (result : StepResult) :
    Quiet Late (applyStepStorage runId module step result : HostAct host Unit) := by
  refine (policyOf_quiet runId).bind fun policy => ?_
  cases policy with
  | none => exact .pure _
  | some policy =>
      by_cases enabled : policy.1.storage.enabled = true
      · have backed := policy.2 enabled
        simp only [enabled, not_true, if_false]
        exact (writeModuleRows_quiet backed plugged _ _ _ _).bind fun _ =>
          writeStepLog_quiet backed _ _ _ _ _
      · dsimp only
        rw [if_pos enabled]
        exact .pure _

private theorem dropTables_quiet (tables : List String) :
    Quiet Idle (dropTables tables : HostAct host Unit) :=
  .forM fun _ _ => (Quiet.ask (fun _ => ⟨rfl, rfl, rfl⟩) trivial).bind fun _ => .pure _

theorem finishRunStorage_quiet (runId : String) :
    Quiet Idle (finishRunStorage runId : HostAct host Unit) :=
  Quiet.bind (Upholds.get fun _ => .nothing) fun _ =>
    (Quiet.modify _).bind fun _ => (dropTables_quiet _).bind fun _ => .modify _

theorem loadInputs_quiet (inputs : List NamedArtifact) (loaded) :
    Quiet Early (loadInputs inputs loaded : HostAct host _) := by
  induction inputs generalizing loaded with
  | nil => exact .pure _
  | cons na rest ih =>
      unfold loadInputs
      split
      · exact ih _
      · exact (getArtifact_quiet _).bind fun _ => ih _

theorem loadStep_quiet (runId : String) (work : WorkItem) :
    Quiet Early (loadStep runId work : HostAct host _) :=
  (loadInputs_quiet _ _).bind fun _ => .pure _

private theorem outputsExist_quiet (outputs : List NamedArtifact) :
    Quiet Early (outputsExist outputs : HostAct host Bool) := by
  induction outputs with
  | nil => exact .pure _
  | cons na rest ih =>
      unfold outputsExist
      split
      · exact .pure _
      · refine (Quiet.ask (fun _ => ⟨rfl, rfl, rfl⟩) trivial).bind fun answer => ?_
        split
        · exact .pure _
        · exact ih

section Memo

variable [Sha256]

omit [Sha256] in
private theorem memoDigest_quiet {K : Query → Prop} (digests : ∀ m, K (.moduleDigest m))
    (runId module : String) (work : WorkItem) :
    Quiet K (memoDigest runId module work : HostAct host _) := by
  refine (policyOf_quiet runId).bind fun policy => ?_
  split
  · exact .pure _
  · split
    · exact .pure _
    · split
      · exact .pure _
      · refine (Quiet.ask ?_ (digests module)).bind fun _ => .pure _
        exact fun _ => ⟨rfl, rfl, rfl⟩

omit [Sha256] in
private theorem memoDigest_missing {module : String} (missing : module ∉ host.plugins)
    (runId : String) (work : WorkItem) :
    Upholds (fun _ r => ∀ digest, r ≠ .ok (some digest))
      (memoDigest runId module work : HostAct host _) := by
  refine Upholds.last (fun policy => ?_) fun _ _ => nofun
  split
  · exact .pure nofun
  · split <;> exact .pure nofun

private theorem lookupMemo_quiet (module digest : String) (work : WorkItem) :
    Quiet Early (lookupMemo module digest work : HostAct host _) := by
  refine (memoGet_quiet _).bind fun record => ?_
  split
  · exact .pure _
  · refine (outputsExist_quiet _).bind fun found => ?_
    split
    · exact .pure _
    · split <;> exact .pure _

theorem tryMemoHit_quiet (runId module : String) (work : WorkItem) :
    Quiet Early (tryMemoHit runId module work : HostAct host _) := by
  refine (memoDigest_quiet (fun _ => trivial) runId module work).bind fun digest => ?_
  split
  · exact .pure _
  · split
    · exact .pure _
    · exact lookupMemo_quiet module _ work

theorem tryMemoHit_missing {module : String} (missing : module ∉ host.plugins)
    (runId : String) (work : WorkItem) :
    Upholds (fun _ r => ∀ hit, r ≠ .ok (some hit))
      (tryMemoHit runId module work : HostAct host _) := by
  refine Upholds.bind (R := fun _ _ r => ∀ hit, r ≠ .ok (some hit))
    (memoDigest_missing missing runId work) (fun digest _ none => ?_) (fun _ _ _ _ => nofun)
    fun _ _ _ _ _ none => none
  cases digest with
  | none => exact .pure nofun
  | some digest => exact absurd rfl (none digest)

theorem storeMemoAfterSuccess_quiet (runId module : String) (work : WorkItem)
    (outputs : List NamedArtifact) :
    Quiet Late (storeMemoAfterSuccess runId module work outputs : HostAct host Unit) := by
  refine (memoDigest_quiet (fun _ => trivial) runId module work).bind fun digest => ?_
  split
  · exact .pure _
  · split
    · exact .pure _
    · exact memoPut_quiet _

end Memo

section Units

variable [Sha256]

omit [Sha256] in
theorem putOutputs_quiet (module : String) (outputs : List PortBody) :
    Quiet Early (putOutputs module outputs : HostAct host _) := by
  induction outputs with
  | nil => exact .pure _
  | cons out rest ih =>
      exact (putArtifact_quiet _).bind fun _ => ih.bind fun _ => .pure _

omit [Sha256] in
theorem commitOutputs_finishes {work : WorkItem} (plugged : work.module ∈ host.plugins)
    (runId : String) (outputs : List NamedArtifact) :
    Finishes {work} (commitOutputs runId work outputs : HostAct host Unit) := by
  refine Finishes.andThen (Upholds.asked fun answer => ?_) fun _ => .pure _
  cases answer with
  | ok run => exact Upholds.pure (.single rfl rfl rfl nofun plugged)
  | error e => exact Upholds.throw (.single rfl rfl rfl (fun _ => rfl) plugged)

omit [Sha256] in
private theorem commitMemoHit_finishes {work : WorkItem} (plugged : work.module ∈ host.plugins)
    (runId : String) (step : StepContext) (key : String) (outputs : List NamedArtifact)
    (sourceRun : String) :
    Finishes {work}
      (commitMemoHit runId work.module work step key outputs sourceRun : HostAct host Unit) :=
  (emitPresentation_quiet _ _).before fun _ =>
    (commitOutputs_finishes plugged runId outputs).andThen fun _ =>
      ((Quiet.modify _).bind fun _ => applyStepStorage_quiet plugged _ _ _).finishes

private theorem commitStepSuccess_finishes {work : WorkItem}
    (plugged : work.module ∈ host.plugins) (runId : String) (step : StepContext)
    (output : StepOutput) :
    Finishes {work}
      (commitStepSuccess runId work.module work step output : HostAct host Unit) := by
  refine (putOutputs_quiet _ _).before fun outputs =>
    (requirePlugin_quiet (K := Early) plugged).before fun _ =>
      Quiet.before (K := Early) (.ask ?_ trivial) fun _ =>
        (emitOptional_quiet _ _).before fun _ =>
          (commitOutputs_finishes plugged runId outputs).andThen fun _ =>
            ((storeMemoAfterSuccess_quiet _ _ _ _).bind fun _ =>
              applyStepStorage_quiet plugged _ _ _).finishes
  exact fun _ => ⟨rfl, rfl, rfl⟩

omit [Sha256] in
private theorem failStep_finishes {work : WorkItem} (plugged : work.module ∈ host.plugins)
    (runId : String) (step : StepContext) (e : FrameworkError) :
    Finishes {work} (failStep runId work.module work step e : HostAct host Unit) := by
  refine (requirePlugin_quiet (K := Early) plugged).before fun _ =>
    Quiet.before (K := Early) (.ask ?_ trivial) fun shown =>
    (emitPresentation_quiet _ _).attempt.before fun _ =>
      (applyStepStorage_quiet plugged _ _ _).attempt.before fun _ => Upholds.asked fun answer =>
        Upholds.throw (.failure rfl ?_ rfl plugged)
  · exact fun _ => ⟨rfl, rfl, rfl⟩
  · cases answer with
    | ok run => exact le_refl _
    | error e => exact Multiset.zero_le _

private theorem settleStep_finishes {work : WorkItem} (plugged : work.module ∈ host.plugins)
    (runId : String) (executed : Executed) :
    Finishes {work} (settleStep runId work executed : HostAct host Unit) := by
  unfold settleStep
  split
  · exact commitStepSuccess_finishes plugged runId _ _
  · exact failStep_finishes plugged runId _ _

omit [Sha256] in
theorem executeStep_quiet (module : String) (step : StepContext) :
    Quiet Early (executeStep module step : HostAct host _) := by
  refine (Quiet.ask ?_ trivial).bind fun _ => .pure _
  exact fun _ => ⟨rfl, rfl, rfl⟩

omit [Sha256] in
theorem countExecute_quiet {K : Query → Prop} : Quiet K (countExecute : HostAct host Unit) := .modify _

theorem finishWorkUnit_finishes (runId : String) (work : WorkItem) :
    Finishes {work} (finishWorkUnit runId work : HostAct host Unit) := by
  refine (loadStep_quiet runId work).before fun step => ?_
  by_cases plugged : work.module ∈ host.plugins
  · refine (tryMemoHit_quiet _ _ _).before fun hit => ?_
    split
    · exact commitMemoHit_finishes plugged runId step _ _ _
    · refine (requirePlugin_quiet (K := Early) plugged).before fun _ =>
        Quiet.before (K := Early) (.ask ?_ trivial) fun shown =>
        (emitOptional_quiet _ _).before fun _ => (executeStep_quiet _ _).before fun executed =>
          (countExecute_quiet (K := Early)).before fun _ =>
            (Quiet.forM fun _ _ => emitPresentation_quiet _ _).before fun _ =>
              settleStep_finishes plugged runId executed
      exact fun _ => ⟨rfl, rfl, rfl⟩
  · refine (tryMemoHit_quiet _ _ _).beforeKnown (tryMemoHit_missing plugged _ _) fun hit none => ?_
    cases hit with
    | none => exact requirePlugin_missing plugged
    | some hit => exact absurd rfl (none hit)

/-- What the first phase of a wave leaves for the others. -/
def Prepared (host : Host) (items : List WorkItem) (told : Told) :
    Except FrameworkError (List Deferred) → Prop
  | .ok deferred => ∃ hits : Multiset WorkItem,
      (items : Multiset WorkItem) = hits + (deferred.map (·.work) : List WorkItem) ∧
      Outcome host hits told true ∧ ∀ unit ∈ deferred, unit.work.module ∈ host.plugins
  | .error _ => Outcome host items told false

omit [Sha256] in
private theorem Prepared.after {xs : Multiset WorkItem} {first second : Told}
    {items all : List WorkItem} {r : Except FrameworkError (List Deferred)}
    (same : (all : Multiset WorkItem) = xs + items) (before : Outcome host xs first true)
    (prepared : Prepared host items second r) : Prepared host all (first ++ second) r := by
  cases r with
  | ok deferred =>
      obtain ⟨hits, split, after, plugged⟩ := prepared
      refine ⟨xs + hits, ?_, before.seq after, plugged⟩
      rw [same, split, add_assoc]
  | error e =>
      have rest : Outcome host items second false := prepared
      rw [Prepared, same]
      exact before.seq rest

section Preparing

variable {K : Query → Prop} {α : Type} {items : List WorkItem} {work : WorkItem} {x : HostAct host α}
  {f : α → HostAct host (List Deferred)}

omit [Sha256] in
private theorem Quiet.preparesKnown {P : Except FrameworkError α → Prop} (first : Quiet K x)
    (known : Upholds (fun _ r => P r) x)
    (second : ∀ a, P (.ok a) → Upholds (Prepared host items) (f a)) :
    Upholds (Prepared host items) (x >>= f) :=
  Upholds.bind (first.and known) (fun a _ held => second a held.2)
    (fun _ _ stopped => show Outcome host items _ false by
      simpa using Outcome.stop stopped.1.outcome items)
    fun _ _ _ _ before after => after.after (zero_add _).symm before.1.outcome

omit [Sha256] in
private theorem Quiet.prepares (first : Quiet K x)
    (second : ∀ a, Upholds (Prepared host items) (f a)) : Upholds (Prepared host items) (x >>= f) :=
  first.preparesKnown (first.mono fun _ _ _ => trivial) fun a _ => second a

omit [Sha256] in
private theorem Finishes.prepares (first : Finishes {work} x)
    (second : ∀ a, Upholds (Prepared host items) (f a)) :
    Upholds (Prepared host (work :: items)) (x >>= f) :=
  Upholds.bind first (fun a _ _ => second a)
    (fun _ _ stopped => show Outcome host ({work} + (items : Multiset WorkItem)) _ false from
      Outcome.stop stopped items)
    fun _ _ _ _ before after => after.after rfl before

end Preparing

theorem prepareUnits_prepares (runId : String) (items : List WorkItem) :
    Upholds (Prepared host items) (prepareUnits runId items : HostAct host _) := by
  induction items with
  | nil =>
      have prepared : Prepared host [] [] (.ok []) :=
        ⟨0, rfl, .nothing, fun _ member => absurd member List.not_mem_nil⟩
      exact Upholds.pure prepared
  | cons work rest ih =>
      rw [prepareUnits]
      by_cases plugged : work.module ∈ host.plugins
      · refine (tryMemoHit_quiet _ _ _).prepares fun hit => ?_
        split
        · exact (loadStep_quiet _ _).prepares fun step =>
            (commitMemoHit_finishes plugged _ _ _ _ _).prepares fun _ => ih
        · refine (requirePlugin_quiet (K := Early) plugged).prepares fun _ =>
            (loadStep_quiet _ _).prepares fun step =>
              Quiet.prepares (K := Early) (.ask ?_ trivial) fun shown => ?_
          · exact fun _ => ⟨rfl, rfl, rfl⟩
          · refine ih.bind
              (R := fun deferred told r => told = [] ∧ r = .ok ({ work, step, shown } :: deferred))
              (fun _ _ _ => .pure ⟨rfl, rfl⟩) (fun _ _ stopped => ?_) ?_
            · rw [Prepared, ← Multiset.cons_coe, ← Multiset.singleton_add, add_comm]
              exact Outcome.stop stopped {work}
            · rintro deferred told _ _ ⟨hits, split, before, pluggeds⟩ ⟨rfl, rfl⟩
              rw [List.append_nil]
              refine ⟨hits, ?_, before, List.forall_mem_cons.mpr ⟨plugged, pluggeds⟩⟩
              rw [List.map_cons, ← Multiset.cons_coe, ← Multiset.cons_coe, split,
                Multiset.add_cons]
      · refine (tryMemoHit_quiet _ _ _).preparesKnown (tryMemoHit_missing plugged _ _)
          fun hit none => ?_
        cases hit with
        | some hit => exact absurd rfl (none hit)
        | none =>
            rw [requirePlugin, if_neg plugged]
            exact Upholds.throw (Outcome.stop (Outcome.missing plugged) ↑rest)

omit [Sha256] in
theorem executeUnits_keeps (units : List Deferred) :
    Upholds (fun told r => Aside Early told r.isOk ∧
      ∀ outcomes, r = .ok outcomes → outcomes.map (·.1) = units)
      (executeUnits units : HostAct host _) := by
  induction units with
  | nil => exact .pure ⟨.nothing, by rintro _ ⟨⟩; rfl⟩
  | cons unit rest ih =>
      refine Upholds.bind (executeStep_quiet unit.work.module unit.step)
        (R := fun executed told r => Aside Early told r.isOk ∧
          ∀ outcomes, r = .ok outcomes → outcomes.map (·.1) = unit :: rest)
        (fun executed _ _ => ?_) (fun _ _ stopped => ⟨stopped, nofun⟩) ?_
      · refine ih.bind
          (R := fun others told r => told = [] ∧ r = .ok ((unit, executed) :: others))
          (fun _ _ _ => .pure ⟨rfl, rfl⟩) (fun _ _ stopped => ⟨stopped.1, nofun⟩) ?_
        rintro others told _ _ ⟨quiet, same⟩ ⟨rfl, rfl⟩
        rw [List.append_nil]
        refine ⟨quiet, ?_⟩
        rintro _ ⟨⟩
        rw [List.map_cons, same others rfl]
      · rintro executed told rest' r before ⟨after, same⟩
        exact ⟨before.seq after, same⟩

private theorem settleUnit_finishes (runId : String) {outcome : Deferred × Executed}
    (plugged : outcome.1.work.module ∈ host.plugins) :
    Finishes {outcome.1.work} (settleUnit runId outcome : HostAct host Unit) :=
  (countExecute_quiet (K := Early)).before fun _ => (emitOptional_quiet _ _).before fun _ =>
    (Quiet.forM fun _ _ => emitPresentation_quiet _ _).before fun _ =>
      settleStep_finishes plugged runId outcome.2

omit [Sha256] in
theorem Finishes.forM {β : Type} {l : List β} {unit : β → WorkItem} {g : β → HostAct host PUnit}
    (each : ∀ b ∈ l, Finishes {unit b} (g b)) :
    Finishes (l.map unit : List WorkItem) (l.forM g) := by
  induction l with
  | nil => exact .pure _
  | cons b l ih =>
      have first : Finishes {unit b} (g b) := each b List.mem_cons_self
      exact first.bind fun _ => ih fun c member => each c (List.mem_cons_of_mem _ member)

private theorem finishWorkUnitsParallel_finishes (runId : String) (items : List WorkItem) :
    Finishes items (finishWorkUnitsParallel runId items : HostAct host Unit) := by
  refine (prepareUnits_prepares runId items).bind
    (R := fun deferred told r => (∀ unit ∈ deferred, unit.work.module ∈ host.plugins) →
      Outcome host (deferred.map (·.work) : List WorkItem) told r.isOk) (fun deferred _ _ => ?_)
    (fun _ _ stopped => stopped) ?_
  · by_cases pluggeds : ∀ unit ∈ deferred, unit.work.module ∈ host.plugins
    · refine Upholds.mono ?_ fun _ _ h _ => h
      have quiet : Quiet Early (executeUnits deferred : HostAct host _) :=
        (executeUnits_keeps deferred).mono fun _ _ h => h.1
      refine quiet.beforeKnown ((executeUnits_keeps deferred).mono fun _ _ h => h.2)
        fun outcomes same => ?_
      rw [← same outcomes rfl] at pluggeds ⊢
      rw [List.map_map]
      exact Finishes.forM fun outcome member =>
        settleUnit_finishes runId (pluggeds _ (List.mem_map_of_mem member))
    · exact fun _ _ _ _ _ all => absurd all pluggeds
  · rintro deferred told rest r ⟨hits, split, before, pluggeds⟩ after
    rw [split]
    exact before.seq (after pluggeds)

omit [Sha256] in
private theorem claimReady_finishes {α : Type} {req : ClaimRequest}
    {f : Claimed req → HostAct host α} (rest : ∀ resp, Finishes resp.1.items (f resp)) :
    Finishes 0 (claimReady req >>= f) := by
  unfold claimReady
  rw [bind_assoc]
  refine Upholds.asked fun answer => ?_
  cases answer with
  | ok resp => exact (rest resp).mono fun _ _ outcome => outcome.claimed rfl rfl rfl
  | error e => exact Upholds.throw (.exchange rfl rfl rfl fun _ => rfl)

theorem driveClaimWave_finishes (runId : String) (onePass : Bool) :
    Finishes 0 (driveClaimWave runId onePass : HostAct host Bool) := by
  refine (policyOf_quiet runId (K := Idle)).before fun policy => claimReady_finishes fun resp => ?_
  split
  case isTrue none => rw [none]; exact .pure _
  case isFalse =>
    split
    · refine Finishes.andThen ?_ fun _ => .pure _
      have each : Finishes (resp.1.items.map fun work => work : List WorkItem)
          (resp.1.items.forM (finishWorkUnit runId) : HostAct host PUnit) :=
        Finishes.forM fun work _ => finishWorkUnit_finishes runId work
      rwa [List.map_id'] at each
    · exact (finishWorkUnitsParallel_finishes runId _).andThen fun _ => .pure _

theorem tryStep_finishes (runId module : String) :
    Finishes 0 (tryStep runId module : HostAct host Bool) := by
  refine claimReady_finishes fun resp => ?_
  have one : resp.1.items.length ≤ 1 := resp.2
  match resp.1.items, one with
  | [], _ => exact .pure _
  | [work], _ => exact (finishWorkUnit_finishes runId work).andThen fun _ => .pure _

theorem driveUntilIdle_finishes (runId : String) (fuel : Nat) :
    Finishes 0 (driveUntilIdle runId fuel : HostAct host _) := by
  induction fuel with
  | zero => exact .pure _
  | succ fuel ih =>
      refine (getRun_quiet runId).before fun run => ?_
      split
      · exact .pure _
      · refine (driveClaimWave_finishes runId false).before fun found => ?_
        split
        · exact ih
        · exact (getRun_quiet runId).before fun _ => .pure _

theorem driveOnePass_finishes (runId : String) :
    Finishes 0 (driveOnePass runId : HostAct host _) := by
  refine (getRun_quiet runId).before fun run => ?_
  split
  · exact .pure _
  · exact (driveClaimWave_finishes runId true).andThen fun _ =>
      (getRun_quiet runId).before fun _ => .pure _

omit [Sha256] in
theorem closeRun_quiet (runId : String) (run : Option Run) :
    Quiet Idle (closeRun runId run : HostAct host (Option Run)) := by
  cases run with
  | none => exact .pure _
  | some run =>
      rw [closeRun]
      split
      · exact (finishRunStorage_quiet runId).bind fun _ => .pure _
      · exact .pure _

theorem driveWith_finishes (fuel : Nat) (runId : String) (plan : DrivePlan) :
    Finishes 0 (driveWith fuel runId plan : HostAct host _) := by
  rw [driveWith_eq]
  refine Finishes.andThen ?_ fun run => (closeRun_quiet runId run).finishes
  cases plan with
  | onePass => exact driveOnePass_finishes runId
  | untilIdle | untilIdleThenWait => exact driveUntilIdle_finishes runId fuel

end Units

/-- The calls of a host that claim units. -/
inductive DriveCall
  | drive (runId : String)
  | driveWith (runId : String) (plan : DrivePlan)
  | tryStep (runId module : String)

section Calls

variable [Sha256]

/-- A call from the host's books on; a drive loop makes at most `fuel` waves. -/
def DriveCall.perform (fuel : Nat) (books : Books host) :
    DriveCall → Prog Query Answer (Except FrameworkError Unit × Books host)
  | .drive runId => start (do let _ ← Substrate.Framework.Drive.drive fuel runId) books
  | .driveWith runId plan =>
      start (do let _ ← Substrate.Framework.Drive.driveWith fuel runId plan) books
  | .tryStep runId module => start (do let _ ← Substrate.Framework.Drive.tryStep runId module) books

theorem perform_outcome (fuel : Nat) (books : Books host) (call : DriveCall) {told : Told}
    {r : Except FrameworkError Unit} {t : Books host}
    (run : Runs (call.perform fuel books) told (r, t)) : Outcome host 0 told r.isOk := by
  cases call with
  | drive runId =>
      exact (((policyOf_quiet runId (K := Idle)).before fun _ =>
        driveWith_finishes fuel runId _).andThen fun _ => .pure _) books told r t run
  | driveWith runId plan =>
      exact ((driveWith_finishes fuel runId plan).andThen fun _ => .pure _) books told r t run
  | tryStep runId module =>
      exact ((tryStep_finishes runId module).andThen fun _ => .pure _) books told r t run

end Calls

/-- A host with one plugin, and neither storage nor a memo store. -/
def echoHost : Host :=
  { plugins := ["echo"], ctx := {}, uiPersist := .localOnly, storage := false,
    storageSchemas := ∅, memo := false }

end Substrate.Protocol.Orphans
