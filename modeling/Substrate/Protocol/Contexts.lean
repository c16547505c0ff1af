/- ID: Substrate/Protocol/Contexts
   digest: When the one context of a host keeps its values, its units and its runs apart. -/

import Substrate.Protocol.AllowList
import Substrate.Protocol.Commits
import Substrate.Protocol.Content
import Substrate.Protocol.WorkIds

set_option autoImplicit false
set_option relaxedAutoImplicit false

namespace Substrate.Protocol.Contexts

open Substrate.Kernel.Wire
open Substrate.Kernel.Hashing
open Substrate.Kernel.Memory
open Substrate.Kernel.Store
open Substrate.Kernel.Runs
open Substrate.Kernel.Work
open Substrate.Kernel.Api (Call Reachable step)
open Substrate.Framework.Steps
open Substrate.Framework.Memo
open Substrate.Framework.Policy
open Substrate.Framework.Calls
open Substrate.Framework.Drive
open Substrate.Framework.Pipeline
open Substrate.Framework.Sessions
open Substrate.Framework.InProcess
open Substrate.Library.Checks (forall₂_mem)
open Substrate.Library.FiniteMap
open Substrate.Library.Resumption
open Substrate.Library.Resumption.Act (start Upholds)
open Substrate.Library.Resumption.Prog (Environment exec transcript)
open Substrate.Library.Histories
open Substrate.Protocol.Atoms
open Substrate.Protocol.Slots
open Substrate.Protocol.Refine
open Substrate.Protocol.Serial (reapSlot_lookup)
open Substrate.Protocol.Content
open Substrate.Protocol.WorkIds
open Substrate.Protocol.Draining (opOf inProcess_kernel inProcess_reachable)
open Substrate.Protocol.Orphans (Told)
open Substrate.Protocol.Commits

variable {host : Host}

/-- The trait bag that a plugin has returned for a port. -/
def returnedBag (out : PortBody) : List (String × TraitValue) :=
  out.traits.entries.map fun e => (e.1, .inline e.2)

theorem bagOf_output (module : String) (out : PortBody) :
    bagOf (outputArtifact module out) = returnedBag out := by
  simp only [bagOf, outputArtifact, OrderedMap.map, List.map_map, returnedBag]
  rfl

/-- A reference is to a stored artifact of a trait bag. -/
def HasBag (s : State) (r : ArtifactRef) (bag : List (String × TraitValue)) : Prop :=
  ∃ b, s.artifacts.lookup r.id = some b ∧ bagOf b = bag

/-- A committed output goes by the port that a plugin returned a value for, and has its bag. -/
def Bears (s : State) (out : PortBody) (na : NamedArtifact) : Prop :=
  na.name = out.port ∧ ∃ r, na.artifact = some r ∧ HasBag s r (returnedBag out)

section Property

variable [Sha256] {S : Type}

/-- The outputs of a unit bear what its plugin returned, port by port; those of a cached unit bear
what was returned by the execution that its key was cached for. -/
def Delivers (told : Told) (s : State) (work : WorkItem) (outputs : List NamedArtifact) : Prop :=
  (∃ output, Ran told work output ∧ List.Forall₂ (Bears s) output.outputs outputs) ∨
    ∃ source output digest digest', Ran told source output ∧ Digested told work digest ∧
      unitKeyOf source.module digest' source = unitKeyOf work.module digest work ∧
      ∀ na ∈ outputs, ∃ out ∈ output.outputs, Bears s out na

/-- A commit is of a unit that was handed out and delivers what its plugin returned, and when it is
accepted that very unit is DONE; a start that is accepted makes a run of its id. -/
def Faithful (host : Host) (told : Told) (s t : State) : Exchange Query Answer → Prop
  | ⟨.commit submitted _, answer⟩ => ∃ work, Handed host told submitted.runId work ∧
      submitted.workId = work.id ∧ Delivers told s work submitted.outputs ∧
      ∀ run, answer = .ok run → ∃ slot, t.runs.lookup submitted.runId = some slot ∧
        work.unitKey ∈ slot.doneUnits
  | ⟨.startRun req _, answer⟩ => ∀ run, answer = .ok run → run.id = req.id ∧
      s.runs.lookup req.id = none ∧ ∃ slot, t.runs.lookup req.id = some slot ∧ slot.run = run
  | _ => True

/-- The kernel has cached no other response for a call of the host: a put whose key it has cached is
of the bag cached, and is confused with no artifact in the store; the units of a run have plain
names. -/
def Apt (told : Told) (s : State) : Query → Prop
  | .putArtifact artifact ctx => ∀ module out, Returned told module out →
      artifact = outputArtifact module out →
        (∀ r, idempotentGet s "put_artifact" ctx = some (.artifactRef r) →
          HasBag s r (bagOf artifact)) ∧
        ∀ b, s.artifacts.lookup (artifactIdOf artifact) = some b → bagOf b = bagOf artifact
  | .commit submitted ctx => (∀ run, idempotentGet s "commit" ctx ≠ some (.run run)) ∧
      ∀ slot, s.runs.lookup submitted.runId = some slot → PlainNames s.modules slot
  | .startRun _ ctx => ∀ run, idempotentGet s "start_run" ctx ≠ some (.run run)
  | _ => True

/-- What the memo store returns under a key was put into it under that key. -/
def Remembers (told : Told) : Exchange Query Answer → Prop
  | ⟨.memoGet key, answer⟩ => ∀ record, answer = .ok (some record) → record.key = key ∧
      ∃ done, (⟨.memoPut record, done⟩ : Exchange Query Answer) ∈ told
  | _ => True

end Property

section Kernel

variable [Sha256] [Prost] {store : ArtifactStorePolicy} {s t : State}

omit [Sha256] [Prost] in
private theorem hasBag_mono {r : ArtifactRef} {bag : List (String × TraitValue)}
    (grown : ∀ id b, s.artifacts.lookup id = some b → t.artifacts.lookup id = some b)
    (has : HasBag s r bag) : HasBag t r bag := by
  obtain ⟨b, found, same⟩ := has
  exact ⟨b, grown _ b found, same⟩

private theorem stored_step (wf : WellFormed s) (call : Call) (id : String)
    (b : Artifact) (found : s.artifacts.lookup id = some b) :
    (step store s call).1.artifacts.lookup id = some b := by
  obtain ⟨atoms, path, -⟩ := step_explained store wf call
  refine path.keeps (P := fun t : State => t.artifacts.lookup id = some b) ?_ found
  intro u a guard before
  show (a.apply u).artifacts.lookup id = some b
  rcases artifacts_apply u a with same | ⟨c, rfl, stored⟩
  · rwa [same]
  · rw [stored, lookup_insert_of, if_neg]
    · exact before
    · rintro rfl
      exact guard.2.1 (mem_of_lookup before)

theorem put_hasBag {env : Env} {a : Artifact} {ctx : RequestContext} {r : ArtifactRef}
    (cached : ∀ r, idempotentGet s "put_artifact" ctx = some (.artifactRef r) →
      HasBag s r (bagOf a))
    (clear : ∀ b, s.artifacts.lookup (artifactIdOf a) = some b → bagOf b = bagOf a)
    (put : putArtifactCtx store env a ctx s = (t, .ok r)) : HasBag t r (bagOf a) := by
  obtain ⟨-, -, put⟩ := orReturn_ok put
  obtain ⟨-, -, put⟩ := orReturn_ok put
  split at put
  · rename_i ref held
    obtain ⟨rfl, same⟩ := Prod.mk.inj put
    obtain rfl := Except.ok.inj same
    exact cached ref held
  · obtain ⟨-, -, put⟩ := orReturn_ok put
    obtain ⟨rfl, same⟩ := Prod.mk.inj put
    obtain rfl := Except.ok.inj same
    unfold HasBag
    rw [idempotentPut_artifacts]
    split
    · rename_i known
      obtain ⟨b, found⟩ := lookup_of_mem known
      exact ⟨b, found, clear b found⟩
    · exact ⟨_, AList.lookup_insert _, rfl⟩

theorem commit_marks (reached : Reachable store s) {env : Env} {submitted : Derivation}
    {ctx : RequestContext} {run : Run} {slot : RunSlot} {unitKey : String}
    (uncached : ∀ run, idempotentGet s "commit" ctx ≠ some (.run run))
    (found : s.runs.lookup submitted.runId = some slot) (plain : PlainNames s.modules slot)
    (named : Named s.modules submitted.runId slot submitted.workId unitKey)
    (ok : commitCtx env submitted ctx s = (t, .ok run)) :
    ∃ after, t.runs.lookup submitted.runId = some after ∧ unitKey ∈ after.doneUnits := by
  obtain ⟨slot', c, after, found', -, held, -, -, made, -, rfl⟩ :=
    commitCtx_ok (reachable_wellFormed reached) uncached ok
  obtain rfl := Option.some.inj (found.symm.trans found')
  obtain rfl : c.unitKey = unitKey :=
    named_inj plain (reachable_named reached found _ c (reapSlot_lookup held)) named
  refine ⟨after, by rw [idempotentPut_runs, lookup_recordAll _ _ _ found, if_pos rfl], ?_⟩
  rw [made, SlotAct.apply, settleSlot_doneUnits, commitSlot]
  exact Finset.mem_insert_self _ _

theorem start_makes {env : Env} {req : RunRequest} {ctx : RequestContext} {run : Run}
    (uncached : ∀ run, idempotentGet s "start_run" ctx ≠ some (.run run))
    (ok : startRunCtx env req ctx s = (t, .ok run)) :
    run.id = req.id ∧ s.runs.lookup req.id = none ∧
      ∃ slot, t.runs.lookup req.id = some slot ∧ slot.run = run := by
  obtain ⟨-, -, ok⟩ := orReturn_ok ok
  split at ok
  · exact absurd ‹_› (uncached _)
  split_ifs at ok with blank known
  · cases ok
  · cases ok
  cases given : req.assembly with
  | none =>
      rw [given] at ok
      cases ok
  | some assembly =>
      rw [given] at ok
      obtain ⟨whole, -, ok⟩ := orReturn_ok ok
      obtain ⟨-, -, ok⟩ := orReturn_ok ok
      dsimp only at ok
      split_ifs at ok
      · cases ok
      obtain ⟨rfl, same⟩ := Prod.mk.inj ok
      obtain rfl := Except.ok.inj same
      refine ⟨rfl, AList.lookup_eq_none.mpr known, ?_⟩
      rw [idempotentPut_runs]
      exact ⟨_, AList.lookup_insert _, rfl⟩

end Kernel

section Session

variable [Sha256] [Prost] {S : Type} {store : ArtifactStorePolicy} {clock : Nat → Env}
  {outside : Environment S Query Answer} {told : Told}

/-- What a host has been told holds of its kernel: what it has put bears what was returned, the
units it was handed have their names, the runs it has started are there, and the records that it has
recalled or cached are of outputs that were produced. -/
structure Known (store : ArtifactStorePolicy) (host : Host) (told : Told) (s : State) : Prop where
  reached : Reachable store s
  stored : ∀ module out na, Stored host told module out na → Bears s out na
  handed : ∀ runId work, Handed host told runId work →
    ∃ slot, s.runs.lookup runId = some slot ∧ Named s.modules runId slot work.id work.unitKey
  started : ∀ req ctx run, (⟨.startRun req ctx, .ok run⟩ : Exchange Query Answer) ∈ told →
    run.id = req.id ∧ ∃ slot, s.runs.lookup req.id = some slot
  cached : ∀ record done, (⟨.memoPut record, done⟩ : Exchange Query Answer) ∈ told →
    ∃ runId work digest outputs, Produced host told work outputs ∧
      record = buildRecord (unitKeyOf work.module digest work) work digest outputs runId
  recalled : ∀ key record,
    (⟨.memoGet key, .ok (some record)⟩ : Exchange Query Answer) ∈ told → record.key = key ∧
      ∃ done, (⟨.memoPut record, done⟩ : Exchange Query Answer) ∈ told

private theorem known_start {s : State} (reached : Reachable store s) :
    Known store host [] s where
  reached := reached
  stored := by
    rintro module out na ⟨-, r, before, after, -, -, split⟩
    exact absurd split (by simp)
  handed := by
    rintro runId work ⟨req, resp, member, -⟩
    exact absurd member List.not_mem_nil
  started _ _ _ member := absurd member List.not_mem_nil
  cached _ _ member := absurd member List.not_mem_nil
  recalled _ _ member := absurd member List.not_mem_nil

omit [Sha256] [Prost] in
private theorem stored_snoc {e : Exchange Query Answer} {module : String} {out : PortBody}
    {na : NamedArtifact} (stored : Stored host (told ++ [e]) module out na) :
    Stored host told module out na ∨ na.name = out.port ∧ ∃ r, na.artifact = some r ∧
      Returned told module out ∧
        e = ⟨.putArtifact (outputArtifact module out) host.ctx, .ok r⟩ := by
  obtain ⟨named, r, before, after, ref, returned, split⟩ := stored
  rcases List.eq_nil_or_concat after with rfl | ⟨after, last, rfl⟩
  · obtain ⟨rfl, same⟩ := List.append_inj' split rfl
    exact .inr ⟨named, r, ref, returned, (List.cons.inj same).1⟩
  · rw [List.concat_eq_append, ← List.cons_append, ← List.append_assoc] at split
    exact .inl ⟨named, r, before, after, ref, returned, (List.append_inj' split rfl).1⟩

omit [Sha256] [Prost] in
private theorem handed_snoc {e : Exchange Query Answer} {runId : String} {work : WorkItem}
    (handed : Handed host (told ++ [e]) runId work) :
    Handed host told runId work ∨ ∃ req resp, e = ⟨.claimReady req host.ctx, .ok resp⟩ ∧
      req.runId = runId ∧ work ∈ resp.1.items := by
  obtain ⟨req, resp, member, here, listed⟩ := handed
  rcases List.mem_append.mp member with old | now
  · exact .inl ⟨req, resp, old, here, listed⟩
  · exact .inr ⟨req, resp, (List.mem_singleton.mp now).symm, here, listed⟩

variable {w : World S} {q : Query}

private theorem grown_ask (reached : Reachable store w.kernel) (id : String) (b : Artifact)
    (found : w.kernel.artifacts.lookup id = some b) :
    (inProcess store clock outside q w).1.kernel.artifacts.lookup id = some b := by
  rw [inProcess_kernel]
  cases opOf q with
  | none => exact found
  | some p => exact stored_step (reachable_wellFormed reached) _ id b found

private theorem persists_ask (reached : Reachable store w.kernel) :
    Persists w.kernel (inProcess store clock outside q w).1.kernel := by
  rw [inProcess_kernel]
  cases opOf q with
  | none => exact persists_path (.nil w.kernel)
  | some p => exact persists_step store (reachable_wellFormed reached) _

private theorem stored_ask (known : Known store host told w.kernel) (apt : Apt told w.kernel q)
    {module : String} {out : PortBody} {na : NamedArtifact}
    (stored : Stored host (told ++ [⟨q, (inProcess store clock outside q w).2⟩]) module out na) :
    Bears (inProcess store clock outside q w).1.kernel out na := by
  rcases stored_snoc stored with before | ⟨named, r, ref, returned, same⟩
  · obtain ⟨named, r, ref, has⟩ := known.stored module out na before
    exact ⟨named, r, ref, hasBag_mono (grown_ask known.reached) has⟩
  · obtain ⟨rfl, answered⟩ := Sigma.mk.inj same
    obtain ⟨cached, clear⟩ := apt module out returned rfl
    refine ⟨named, r, ref, ?_⟩
    rw [← bagOf_output module]
    exact put_hasBag cached clear (Prod.ext rfl (eq_of_heq answered))

private theorem handed_ask (known : Known store host told w.kernel) {runId : String}
    {work : WorkItem}
    (handed : Handed host (told ++ [⟨q, (inProcess store clock outside q w).2⟩]) runId work) :
    ∃ slot, (inProcess store clock outside q w).1.kernel.runs.lookup runId = some slot ∧
      Named (inProcess store clock outside q w).1.kernel.modules runId slot work.id
        work.unitKey := by
  have persists := @persists_ask _ _ _ store clock outside w q known.reached
  have before : ∃ slot, w.kernel.runs.lookup runId = some slot ∧
      Named w.kernel.modules runId slot work.id work.unitKey := by
    rcases handed_snoc handed with old | ⟨req, resp, same, rfl, listed⟩
    · exact known.handed runId work old
    · obtain ⟨rfl, answered⟩ := Sigma.mk.inj same
      have all := @AllowList.handed_kernel _ _ S store clock outside
        (.claimReady req host.ctx) w _ _ rfl
      rw [eq_of_heq answered] at all
      have member : work ∈ handedOut (step store w.kernel
          ⟨.claimReady req, host.ctx, clock w.calls⟩).2 := by
        rw [← Multiset.mem_coe, all]
        exact listed
      obtain ⟨req', slot, made, -, found, named⟩ := handedOut_named member
      obtain rfl : req = req' := by
        cases made
        rfl
      exact ⟨slot, found, named⟩
  obtain ⟨slot, found, named⟩ := before
  obtain ⟨after, found', terms⟩ := persists.terms runId slot found
  exact ⟨after, found', named.frame persists.pinned terms.symm⟩

private theorem started_ask (known : Known store host told w.kernel) (apt : Apt told w.kernel q)
    {req : RunRequest} {ctx : RequestContext} {run : Run}
    (started : (⟨.startRun req ctx, .ok run⟩ : Exchange Query Answer) ∈
      told ++ [⟨q, (inProcess store clock outside q w).2⟩]) :
    run.id = req.id ∧
      ∃ slot, (inProcess store clock outside q w).1.kernel.runs.lookup req.id = some slot := by
  rcases List.mem_append.mp started with old | now
  · obtain ⟨named, slot, found⟩ := known.started req ctx run old
    obtain ⟨after, found', -⟩ :=
      (@persists_ask _ _ _ store clock outside w q known.reached).terms _ slot found
    exact ⟨named, after, found'⟩
  · obtain ⟨rfl, answered⟩ := Sigma.mk.inj (List.mem_singleton.mp now)
    have ok : startRunCtx (clock w.calls) req ctx w.kernel =
        ((inProcess store clock outside (.startRun req ctx) w).1.kernel, .ok run) :=
      Prod.ext rfl (eq_of_heq answered).symm
    obtain ⟨named, -, slot, found, -⟩ := start_makes apt ok
    exact ⟨named, slot, found⟩

private theorem known_ask (known : Known store host told w.kernel) (apt : Apt told w.kernel q)
    (fits : Fits host told ⟨q, (inProcess store clock outside q w).2⟩)
    (remembers : Remembers told ⟨q, (inProcess store clock outside q w).2⟩) :
    Known store host (told ++ [⟨q, (inProcess store clock outside q w).2⟩])
      (inProcess store clock outside q w).1.kernel where
  reached := inProcess_reachable known.reached
  stored _ _ _ stored := stored_ask known apt stored
  handed _ _ handed := handed_ask known handed
  started _ _ _ started := started_ask known apt started
  cached record done member := by
    have before : ∃ runId work digest outputs, Produced host told work outputs ∧
        record = buildRecord (unitKeyOf work.module digest work) work digest outputs runId := by
      rcases List.mem_append.mp member with old | now
      · exact known.cached record done old
      · rw [← List.mem_singleton.mp now] at fits
        obtain ⟨runId, work, digest, outputs, -, -, produced, made⟩ := fits
        exact ⟨runId, work, digest, outputs, produced, made⟩
    obtain ⟨runId, work, digest, outputs, produced, made⟩ := before
    exact ⟨runId, work, digest, outputs, produced_lasting work outputs told _ produced, made⟩
  recalled key record member := by
    have before : record.key = key ∧
        ∃ done, (⟨.memoPut record, done⟩ : Exchange Query Answer) ∈ told := by
      rcases List.mem_append.mp member with old | now
      · exact known.recalled key record old
      · rw [← List.mem_singleton.mp now] at remembers
        exact remembers record rfl
    obtain ⟨same, done, put⟩ := before
    exact ⟨same, done, List.mem_append_left _ put⟩

omit [Sha256] [Prost] in
private theorem mem_idsByPort {named : List NamedArtifact} {entry : String × String}
    (member : entry ∈ (idsByPort named).entries) :
    ({ name := entry.1, artifact := some ⟨entry.2⟩ } : NamedArtifact) ∈ named := by
  unfold idsByPort at member
  have fresh : entry ∉ (OrderedMap.empty : BTreeMap String).entries := List.not_mem_nil
  generalize (OrderedMap.empty : BTreeMap String) = ids at member fresh
  induction named generalizing ids with
  | nil => exact absurd member fresh
  | cons na rest ih =>
      by_cases head : { name := entry.1, artifact := some ⟨entry.2⟩ } = na
      · exact List.mem_cons.mpr (.inl head)
      · refine List.mem_cons_of_mem _ (ih _ member ?_)
        obtain ⟨name, artifact⟩ := na
        cases artifact with
        | none => exact fresh
        | some r =>
            dsimp only
            split_ifs
            · intro there
              rcases OrderedMap.mem_insert there with rfl | old
              · exact head rfl
              · exact fresh old
            · exact fresh

private theorem delivers_known (known : Known store host told w.kernel) {work : WorkItem}
    {outputs : List NamedArtifact}
    (source : Produced host told work outputs ∨ Cached told work outputs) :
    Delivers told w.kernel work outputs := by
  rcases source with ⟨output, ran, stored⟩ | ⟨digest, record, looked, rfl⟩
  · exact .inl ⟨output, ran, stored.imp fun out na => known.stored _ out na⟩
  · obtain ⟨same, done, put⟩ := known.recalled _ record looked.recalled
    obtain ⟨runId, source, digest', outputs, ⟨output, ran, stored⟩, rfl⟩ :=
      known.cached record done put
    refine .inr ⟨source, output, digest, digest', ran, looked.digested, same, fun na member => ?_⟩
    obtain ⟨entry, listed, rfl⟩ := List.mem_map.mp member
    obtain ⟨out, returned, kept⟩ := (forall₂_mem stored).2 _ (mem_idsByPort listed)
    exact ⟨out, returned, known.stored _ out _ kept⟩

private theorem faithful_ask (known : Known store host told w.kernel) (apt : Apt told w.kernel q)
    (fits : Fits host told ⟨q, (inProcess store clock outside q w).2⟩) :
    Faithful host told w.kernel (inProcess store clock outside q w).1.kernel
      ⟨q, (inProcess store clock outside q w).2⟩ := by
  cases q with
  | commit submitted ctx =>
      obtain ⟨work, handed, named, source⟩ := fits
      refine ⟨work, handed, named, delivers_known known source, fun run accepted => ?_⟩
      obtain ⟨slot, found, name⟩ := known.handed _ work handed
      exact commit_marks known.reached apt.1 found (apt.2 slot found) (named ▸ name)
        (Prod.ext rfl accepted)
  | startRun req ctx => exact fun run accepted => start_makes apt (Prod.ext rfl accepted)
  | _ => trivial

/-- Where a host meets no response cached for another call, no artifact that is taken for another
and no node called like another's unit, and its memo store returns what was put into it, then over
every sequence of its calls what it commits for a unit bears what the plugin returned, each accepted
commit marks its own unit, and every pipeline that starts has a run of its id. -/
theorem context_keeps_apart (store : ArtifactStorePolicy) (clock : Nat → Env)
    (outside : Environment S Query Answer) (session : Session host (World S))
    (reached : Reachable store session.world.kernel) (calls : List HostCall) :
    let env := inProcess store clock outside
    Orderly (fun past v => Apt (past.map Prod.snd) v.1.kernel v.2.1 ∧
        Remembers (past.map Prod.snd) v.2) [] (history env session calls) →
      Orderly (fun past v => Faithful host (past.map Prod.snd) v.1.kernel
        (env v.2.1 v.1).1.kernel v.2) [] (history env session calls) ∧
      ∀ before runId assembly inputs policy after,
        calls = before ++ .startPipeline runId assembly inputs policy :: after →
          let opened := session.run env before
          let started := exec env (start (startPipeline runId assembly inputs policy :
            HostAct host Run) opened.books) opened.world
          ∀ run, started.2.1 = .ok run → run.id = runId ∧
            ∃ slot, started.1.kernel.runs.lookup runId = some slot := by
  intro env apt
  have follow (calls : List HostCall) (apt : Orderly (fun past v => Apt (past.map Prod.snd)
      v.1.kernel v.2.1 ∧ Remembers (past.map Prod.snd) v.2) [] (history env session calls)) :=
    history_follow env (T := fun past w => Known store host (past.map Prod.snd) w.kernel)
      (D := fun past v => Faithful host (past.map Prod.snd) v.1.kernel (env v.2.1 v.1).1.kernel v.2)
      (fun past w q allowed known => ⟨faithful_ask known allowed.1.1 allowed.2, by
        rw [List.map_append]
        exact known_ask known allowed.1.1 allowed.2 allowed.1.2⟩) session calls []
      (orderly_and.mpr ⟨apt, history_fits env session calls []⟩) (known_start reached)
  refine ⟨(follow calls apt).1, ?_⟩
  rintro before runId assembly inputs policy after rfl opened started run accepted
  have whole : before ++ .startPipeline runId assembly inputs policy :: after =
      (before ++ [.startPipeline runId assembly inputs policy]) ++ after := by
    rw [List.append_assoc]
    rfl
  rw [whole, history_append] at apt
  have known := (follow _ (orderly_append.mp apt).1).2
  rw [List.nil_append, told_snoc, run_snoc] at known
  obtain ⟨told, world⟩ := told_ignore env (startPipeline runId assembly inputs policy :
    HostAct host Run) opened.books opened.world
  obtain ⟨-, request⟩ := (startPipeline_follows runId assembly inputs policy).told env opened.books
    opened.world [] trivial
  obtain ⟨req, rfl, asked⟩ := request run accepted
  have within : (⟨.startRun req host.ctx, .ok run⟩ : Exchange Query Answer) ∈
      transcript env (start (ignore (startPipeline req.id assembly inputs policy :
        HostAct host Run)) opened.books) opened.world := by
    rw [told]
    exact asked
  obtain ⟨named, slot, found⟩ := known.started req host.ctx run (List.mem_append_right _ within)
  exact ⟨named, slot, by rw [← world]; exact found⟩

end Session

section Twins

open Substrate.Kernel.Concrete

/-- `twin@1` has two output ports. -/
def twin : ModuleManifest :=
  { name := "twin", version := "1"
    provides := [{ name := "split", inputs := [{ name := "heard", traits := ["text"] }]
                   outputs := [{ name := "a", traits := ["text"] },
                     { name := "b", traits := ["text"] }]
                   firing := Firing.once.asI32 }] }

def twins : Assembly :=
  { id := "twins", nodes := [⟨"n", "twin", "1", "split"⟩]
    bindings := [{ toNode := "n", toPort := "heard", input := "line" }]
    terminal := some ⟨"n", "a"⟩ }

/-- What the plugin returns for its two ports. -/
def bodies : List PortBody :=
  [{ port := "a", traits := .singleton "text" (asBytes "one") },
    { port := "b", traits := .singleton "text" (asBytes "two") }]

def splitting : Environment Unit Query Answer := plainPlugins fun _ => .ok ⟨bodies⟩

/-- A host of `twin@1` under a context. -/
def twinHost (ctx : RequestContext) : Host :=
  { plugins := ["twin"], ctx, uiPersist := .localOnly, storage := false, storageSchemas := ∅,
    memo := false }

/-- A kernel that knows `twin@1` and has one line. -/
def twinKernel : State :=
  Substrate.Kernel.Api.exec policy {}
    [callAt 0 (.register twin), callAt 0 (.putArtifact (text "one"))]

def twinEnv : Environment (World Unit) Query Answer :=
  inProcess policy (fun _ => envAt 0) splitting

def fresh (ctx : RequestContext) : Session (twinHost ctx) (World Unit) := ⟨{}, twinKernel, 0, ()⟩

def startTwins (runId : String) : HostCall :=
  .startPipeline runId twins [given "line" (text "one")] .converge

/-- Start a pipeline, drive it, and start another. -/
def twinCalls : List HostCall := [startTwins "r", .drive 2 "r", startTwins "q"]

def twinHistory (ctx : RequestContext) : List (World Unit × Exchange Query Answer) :=
  history twinEnv (fresh ctx) twinCalls

/-- Whether an exchange is as it has to be, whatever came before it. -/
def aptly (v : World Unit × Exchange Query Answer) : Bool :=
  match v with
  | (w, ⟨.putArtifact artifact ctx, _⟩) =>
      (idempotentGet w.kernel "put_artifact" ctx).isNone &&
        (w.kernel.artifacts.lookup (artifactIdOf artifact)).all (bagOf · == bagOf artifact)
  | (w, ⟨.commit submitted ctx, _⟩) =>
      (idempotentGet w.kernel "commit" ctx).isNone &&
        (w.kernel.runs.lookup submitted.runId).all fun slot =>
          slot.run.assembly.nodes.all fun node => !"always:".toList.isPrefixOf node.id.toList &&
            !"key:".toList.isPrefixOf node.id.toList
  | (w, ⟨.startRun _ ctx, _⟩) => (idempotentGet w.kernel "start_run" ctx).isNone
  | (_, ⟨.memoGet _, _⟩) => false
  | _ => true

private theorem aptly_apt {v : World Unit × Exchange Query Answer} (checked : aptly v = true)
    (told : Told) : Apt told v.1.kernel v.2.1 ∧ Remembers told v.2 := by
  obtain ⟨w, q, answer⟩ := v
  cases q with
  | putArtifact artifact ctx =>
      obtain ⟨none, clear⟩ := Bool.and_eq_true_iff.mp checked
      refine ⟨fun _ _ _ _ => ⟨fun r held => ?_, fun b found => ?_⟩, trivial⟩
      · rw [held] at none
        cases none
      · rw [found] at clear
        exact beq_iff_eq.mp clear
  | commit submitted ctx =>
      obtain ⟨none, names⟩ := Bool.and_eq_true_iff.mp checked
      refine ⟨⟨fun run held => ?_, fun slot found => plainNames_of_ids fun node member => ?_⟩,
        trivial⟩
      · rw [held] at none
        cases none
      · rw [found] at names
        have apart := List.all_eq_true.mp names node member
        rw [Bool.and_eq_true, Bool.not_eq_true', Bool.not_eq_true'] at apart
        rw [← List.isPrefixOf_iff_prefix, ← List.isPrefixOf_iff_prefix, apart.1, apart.2]
        exact ⟨Bool.false_ne_true, Bool.false_ne_true⟩
  | startRun req ctx =>
      refine ⟨fun run held => ?_, trivial⟩
      rw [aptly, held] at checked
      cases checked
  | memoGet key => cases checked
  | _ => exact ⟨trivial, trivial⟩

private theorem fresh_reachable (ctx : RequestContext) :
    Reachable policy (fresh ctx).world.kernel := ⟨_, rfl⟩

private theorem twins_apt : Orderly (fun past v => Apt (past.map Prod.snd) v.1.kernel v.2.1 ∧
    Remembers (past.map Prod.snd) v.2) [] (twinHistory {}) := by
  have checked : (twinHistory {}).all aptly = true := by decide +kernel
  exact orderly_of_mem fun past v member => aptly_apt (List.all_eq_true.mp checked v member) _

/-- Without a request key both values are committed as they were returned and both pipelines
start. -/
theorem unkeyed_keeps_apart :
    Orderly (fun past v => Faithful (twinHost {}) (past.map Prod.snd) v.1.kernel
        (twinEnv v.2.1 v.1).1.kernel v.2) [] (twinHistory {}) ∧
      ∀ before runId assembly inputs plan after,
        twinCalls = before ++ .startPipeline runId assembly inputs plan :: after →
          let opened := (fresh {}).run twinEnv before
          let started := exec twinEnv (start (startPipeline runId assembly inputs plan :
            HostAct (twinHost {}) Run) opened.books) opened.world
          ∀ run, started.2.1 = .ok run → run.id = runId ∧
            ∃ slot, started.1.kernel.runs.lookup runId = some slot :=
  context_keeps_apart policy (fun _ => envAt 0) splitting (fresh {}) (fresh_reachable {}) twinCalls
    twins_apt

/-- Whether every execution so far has returned the two values, and none was cached. -/
def bothReturned (told : Told) : Bool :=
  told.all fun e => match e with
    | ⟨.execute _ _, (_, .ok output)⟩ => output.outputs == bodies
    | ⟨.moduleDigest _, _⟩ => false
    | _ => true

/-- Whether a commit is of a reference to another bag than its port was returned with. -/
def mixes (told : Told) (v : World Unit × Exchange Query Answer) : Bool :=
  match v with
  | (w, ⟨.commit submitted _, _⟩) => bothReturned told &&
      (bodies.zip submitted.outputs).any fun p =>
        (p.2.artifact.bind fun r => w.kernel.artifacts.lookup r.id).map bagOf !=
          some (returnedBag p.1)
  | _ => false

private theorem mixes_unfaithful {told : Told} {v : World Unit × Exchange Query Answer}
    (checked : mixes told v = true) (t : State) : ¬Faithful host told v.1.kernel t v.2 := by
  obtain ⟨w, q, answer⟩ := v
  cases q with
  | commit submitted ctx =>
      obtain ⟨returned, apart⟩ := Bool.and_eq_true_iff.mp checked
      have each := List.all_eq_true.mp returned
      rintro ⟨work, -, -, delivers, -⟩
      rcases delivers with ⟨output, ⟨step, after, -, ran⟩, bears⟩ | ⟨_, _, _, _, -, digested, -⟩
      · have same : output.outputs = bodies := beq_iff_eq.mp (each _ ran)
        rw [same] at bears
        obtain ⟨⟨out, na⟩, member, other⟩ := List.any_eq_true.mp apart
        obtain ⟨-, r, ref, b, found, bag⟩ := (List.forall₂_iff_zip.mp bears).2 member
        rw [ref, Option.bind_some, found, Option.map_some, bag, bne_self_eq_false] at other
        cases other
      · have never := each _ digested.2
        cases never
  | _ => cases checked

private theorem unfaithful_at {h : List (World Unit × Exchange Query Answer)} {n : Nat}
    (mixed : (h[n]?).any (mixes ((h.take n).map Prod.snd)) = true) :
    ¬Orderly (fun past v => Faithful host (past.map Prod.snd) v.1.kernel
      (twinEnv v.2.1 v.1).1.kernel v.2) [] h := by
  intro faithful
  obtain ⟨v, there, checked⟩ := (Option.any_eq_true _ _).mp mixed
  obtain ⟨bound, rfl⟩ := List.getElem?_eq_some_iff.mp there
  have split := (List.take_append_drop n h).symm
  rw [List.drop_eq_getElem_cons bound] at split
  exact mixes_unfaithful checked _ (orderly_iff.mp faithful _ _ _ split)

/-- Under a request key the value of the second port is committed as the first port's artifact, and
the start of the second pipeline returns the first run and makes none. -/
theorem keyed_mixes :
    ¬Orderly (fun past v => Faithful (twinHost { requestKey := "k" }) (past.map Prod.snd) v.1.kernel
        (twinEnv v.2.1 v.1).1.kernel v.2) [] (twinHistory { requestKey := "k" }) ∧
      let opened := (fresh { requestKey := "k" }).run twinEnv [startTwins "r", .drive 2 "r"]
      let started := exec twinEnv (start (startPipeline "q" twins [given "line" (text "one")]
        .converge : HostAct (twinHost { requestKey := "k" }) Run) opened.books) opened.world
      "q" ∉ opened.world.kernel.runs ∧ started.2.1.toOption.map (·.id) = some "r" ∧
        "q" ∉ started.1.kernel.runs := by
  have mixed : ((twinHistory { requestKey := "k" })[9]?).any
      (mixes (((twinHistory { requestKey := "k" }).take 9).map Prod.snd)) = true := by
    decide +kernel
  exact ⟨unfaithful_at mixed, by decide +kernel⟩

end Twins

end Substrate.Protocol.Contexts
