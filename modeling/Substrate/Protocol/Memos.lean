/- ID: Substrate/Protocol/Memos
   source: framework/sdk/rust/src/memo.rs
   digest: When a cached unit commits what executing it would have committed. -/

import Substrate.Protocol.Commits
import Substrate.Protocol.Content
import Substrate.Protocol.Contexts
import Substrate.Protocol.Keys

set_option autoImplicit false
set_option relaxedAutoImplicit false

namespace Substrate.Protocol.Memos

open Substrate.Kernel.Wire
open Substrate.Kernel.Hashing
open Substrate.Kernel.Memory
open Substrate.Kernel.Registry
open Substrate.Kernel.Assembly
open Substrate.Kernel.Schedule
open Substrate.Kernel.Api (Call Reachable step)
open Substrate.Framework.Steps
open Substrate.Framework.Memo
open Substrate.Framework.Policy
open Substrate.Framework.Calls
open Substrate.Framework.Drive
open Substrate.Framework.Pipeline
open Substrate.Framework.Sessions
open Substrate.Framework.InProcess
open Substrate.Library.Checks
open Substrate.Library.FiniteMap
open Substrate.Library.Framing
open Substrate.Library.Histories
open Substrate.Library.Resumption
open Substrate.Library.Resumption.Prog (Environment)
open Substrate.Protocol.Atoms
open Substrate.Protocol.Slots
open Substrate.Protocol.Identity
open Substrate.Protocol.Refine
open Substrate.Protocol.Commits
open Substrate.Protocol.Contexts (Remembers)
open Substrate.Protocol.Draining (inProcess_reachable)
open Substrate.Protocol.Orphans (Told)

variable {host : Host}

/-- The inputs of a unit, in order: each port with the id of its artifact. -/
def pairsOf (named : List NamedArtifact) : List (String × String) :=
  named.filterMap fun na => na.artifact.map (na.name, ·.id)

/-- What a module name, a version, a digest and a capability make of a list of inputs. -/
abbrev Behaviour := String → String → String → String → List (String × String) → List PortBody

/-- A unit that was handed out, under a digest that its plugin has named. -/
def Keyed (host : Host) (told : Told) (work : WorkItem) (digest : String) : Prop :=
  (∃ runId, Handed host told runId work) ∧ Digested told work digest

/-- The digest that a plugin has in a state of its environment. -/
def InForce {W : Type} (env : Environment W Query Answer) (w : W) (module digest : String) : Prop :=
  digest ≠ "" ∧ (env (.moduleDigest module) w).2 = some digest

/-- A unit was executed in a state and returned an output. -/
def RanIn {W : Type} (past : List (W × Exchange Query Answer)) (w : W) (work : WorkItem)
    (output : StepOutput) : Prop :=
  ∃ step after, step.work = work ∧
    (w, (⟨.execute work.module step, (after, .ok output)⟩ : Exchange Query Answer)) ∈ past

/-- Plugins return what goes by the name, the version, the digest they have when they are executed,
the capability and the inputs of their units. -/
def Lawful {W : Type} (env : Environment W Query Answer) (f : Behaviour)
    (past : List (W × Exchange Query Answer)) : Prop :=
  ∀ w work output digest, RanIn past w work output → InForce env w work.module digest →
    output.outputs = f work.module work.moduleVersion digest work.capability (pairsOf work.inputs)

section Property

variable [Sha256]

/-- The outputs that are committed for a unit when its plugin is executed. -/
def executed (f : Behaviour) (digest : String) (work : WorkItem) : List NamedArtifact :=
  (f work.module work.moduleVersion digest work.capability (pairsOf work.inputs)).map fun out =>
    { name := out.port, artifact := some ⟨artifactIdOf (outputArtifact work.module out)⟩ }

/-- Units of one key are of one module, version, digest and capability, with the same inputs. -/
def KeysApart (host : Host) (told : Told) : Prop :=
  ∀ work digest work' digest', Keyed host told work digest → Keyed host told work' digest' →
    unitKeyOf work.module digest work = unitKeyOf work'.module digest' work' →
      work.module = work'.module ∧ work.moduleVersion = work'.moduleVersion ∧ digest = digest' ∧
        work.capability = work'.capability ∧ pairsOf work.inputs = pairsOf work'.inputs

/-- A commit is of a unit that was handed out. Its outputs are those of executing the unit under the
digest that its plugin had when it was executed, or, if they are cached, when it was looked up. -/
def Transparent {W : Type} (host : Host) (env : Environment W Query Answer) (f : Behaviour)
    (past : List (W × Exchange Query Answer)) : Exchange Query Answer → Prop
  | ⟨.commit submitted _, _⟩ => ∃ work, Handed host (past.map Prod.snd) submitted.runId work ∧
      submitted.workId = work.id ∧
      ((∃ w output, RanIn past w work output ∧
          List.Forall₂ (Stored host (past.map Prod.snd) work.module) output.outputs
            submitted.outputs ∧
          ∀ digest, InForce env w work.module digest →
            submitted.outputs = executed f digest work) ∨
        ∃ digest record, LookedUp (past.map Prod.snd) work digest record ∧
          submitted.outputs = recordToNamedOutputs record ∧
          submitted.outputs.Perm (executed f digest work))
  | _ => True

/-- The bytes that the keys of a history are made of. -/
def keyBytes (host : Host) (told : Told) : Set Bytes :=
  {bytes | ∃ work digest, Keyed host told work digest ∧ bytes =
    memoKeyBytes work.module work.moduleVersion digest work.capability (inputFingerprintMap work)}

/-- The ports of a unit, in the order of its inputs. -/
def portsOf (work : WorkItem) : List String := work.inputs.map (·.name)

/-- No name contains the separator, no port has two artifacts, and units of one capability list the
same ports in the same order; plugins return at most one value a port. -/
structure Separate (host : Host) (told : Told) : Prop where
  plain : ∀ work digest, Keyed host told work digest →
    ∀ name ∈ work.module :: work.moduleVersion :: digest :: work.capability :: portsOf work,
      sep ∉ asBytes name
  single : ∀ work digest, Keyed host told work digest → (portsOf work).Nodup
  ordered : ∀ work digest work', Keyed host told work digest → Keyed host told work' digest →
    work.module = work'.module → work.moduleVersion = work'.moduleVersion →
      work.capability = work'.capability → (portsOf work).Perm (portsOf work') →
        portsOf work = portsOf work'
  returned : ∀ work digest output, Keyed host told work digest → Ran told work output →
    (output.outputs.map (·.port)).Nodup ∧ "" ∉ output.outputs.map (·.port)

/-- In every call, a unit is recorded under the digest that its plugin had when it was executed. -/
def Settled {W : Type} (env : Environment W Query Answer) (session : Session host W)
    (calls : List HostCall) : Prop :=
  ∀ before call after, calls = before ++ call :: after →
    ∀ w work output record done, RanIn (segment env (session.run env before) call) w work output →
      (⟨.memoPut record, done⟩ : Exchange Query Answer) ∈
        (segment env (session.run env before) call).map Prod.snd →
      record.sourceWorkId = work.id → InForce env w work.module record.moduleDigest

end Property

section Keys

/-- An input or output that goes into a key or a record: it has a port and an artifact. -/
def Whole (na : NamedArtifact) : Prop := na.name ≠ "" ∧ ∃ r, na.artifact = some r ∧ r.id ≠ ""

theorem pairsOf_cons {na : NamedArtifact} {r : ArtifactRef} {rest : List NamedArtifact}
    (there : na.artifact = some r) :
    pairsOf (na :: rest) = (na.name, r.id) :: pairsOf rest := by
  rw [pairsOf, List.filterMap_cons, there]
  rfl

theorem pairsOf_ports {named : List NamedArtifact} (whole : ∀ na ∈ named, Whole na) :
    (pairsOf named).map Prod.fst = named.map (·.name) := by
  induction named with
  | nil => rfl
  | cons na rest ih =>
      obtain ⟨⟨-, r, there, -⟩, others⟩ := List.forall_mem_cons.mp whole
      rw [pairsOf_cons there, List.map_cons, List.map_cons, ih others]

theorem idsByPort_eq {named : List NamedArtifact} (whole : ∀ na ∈ named, Whole na) :
    idsByPort named = (pairsOf named).foldl (fun ids e => ids.insert e.1 e.2) .empty := by
  unfold idsByPort
  generalize (OrderedMap.empty : BTreeMap String) = ids
  induction named generalizing ids with
  | nil => rfl
  | cons na rest ih =>
      obtain ⟨⟨name, r, there, id⟩, others⟩ := List.forall_mem_cons.mp whole
      rw [pairsOf_cons there, List.foldl_cons, List.foldl_cons, ← ih others]
      simp only [there, ne_eq, name, id, not_false_eq_true, and_self, if_true]

theorem idsByPort_perm {named : List NamedArtifact} (whole : ∀ na ∈ named, Whole na)
    (single : (named.map (·.name)).Nodup) : (idsByPort named).entries.Perm (pairsOf named) := by
  rw [idsByPort_eq whole]
  have none : (OrderedMap.empty : BTreeMap String).entries = [] := rfl
  have distinct : ((pairsOf named ++ (OrderedMap.empty : BTreeMap String).entries).map
      Prod.fst).Nodup := by
    rw [none, List.append_nil, pairsOf_ports whole]
    exact single
  have filled := OrderedMap.foldl_insert_perm distinct
  rwa [none, List.append_nil] at filled

theorem named_pairs {named : List NamedArtifact} (whole : ∀ na ∈ named, Whole na) :
    (pairsOf named).map (fun e => ({ name := e.1, artifact := some ⟨e.2⟩ } : NamedArtifact)) =
      named := by
  induction named with
  | nil => rfl
  | cons na rest ih =>
      obtain ⟨⟨-, r, there, -⟩, others⟩ := List.forall_mem_cons.mp whole
      rw [pairsOf_cons there, List.map_cons, ih others]
      obtain ⟨name, artifact⟩ := na
      rw [show artifact = some r from there]

/-- The fields that a key is made of. -/
def keyFields (module version digest capability : String) (entries : List (String × String)) :
    List Bytes :=
  [module, version, digest, capability].map asBytes ++
    entries.flatMap fun e => [asBytes e.1, asBytes e.2]

theorem memoKeyBytes_eq (module version digest capability : String) (inputs : BTreeMap String) :
    memoKeyBytes module version digest capability inputs =
      frame sep (keyFields module version digest capability inputs.entries) := by
  rw [memoKeyBytes, keyFields, frame, List.flatMap_append, List.flatMap_map, List.flatMap_assoc]
  congr 1
  refine congrArg (List.flatMap · _) (funext fun e => ?_)
  simp

theorem keyFields_inj {m v d c m' v' d' c' : String} {es es' : List (String × String)}
    (same : keyFields m v d c es = keyFields m' v' d' c' es') :
    m = m' ∧ v = v' ∧ d = d' ∧ c = c' ∧ es = es' := by
  obtain ⟨names, rows⟩ := List.append_inj same rfl
  have entries : es = es' := by
    clear same names
    induction es generalizing es' with
    | nil =>
        cases es' with
        | nil => rfl
        | cons e' es' => cases rows
    | cons e es ih =>
        cases es' with
        | nil => cases rows
        | cons e' es' =>
            obtain ⟨port, rest⟩ := List.cons.inj rows
            obtain ⟨id, rest⟩ := List.cons.inj rest
            rw [ih rest, Prod.ext (asBytes_inj port) (asBytes_inj id)]
  simp only [List.map_cons, List.map_nil, List.cons.injEq, and_true] at names
  exact ⟨asBytes_inj names.1, asBytes_inj names.2.1, asBytes_inj names.2.2.1,
    asBytes_inj names.2.2.2, entries⟩

end Keys

section Kernel

private theorem validatePorts_named {nodeId : String} {names : List String} {ports : List Port}
    (ok : validatePorts nodeId names ports = .ok ()) : ∀ p ∈ ports, p.name ≠ "" := by
  induction ports generalizing names with
  | nil => exact fun p member => absurd member List.not_mem_nil
  | cons p ports ih =>
      rw [validatePorts] at ok
      split_ifs at ok with bad empty
      · cases ok
      · cases ok
      · exact List.forall_mem_cons.mpr ⟨fun blank => bad (.inl blank), ih ok⟩

private theorem validateNodes_named {modules : List ModuleSlot} {seen : List String}
    {nodes : List AssemblyNode} (ok : validateNodes modules seen nodes = .ok ()) :
    ∀ node ∈ nodes, ∀ cap, capabilityForNode modules node = .ok cap →
      ∀ p ∈ cap.inputs, p.name ≠ "" := by
  induction nodes generalizing seen with
  | nil => exact fun node member => absurd member List.not_mem_nil
  | cons node nodes ih =>
      rw [validateNodes] at ok
      split_ifs at ok with bad
      · cases ok
      · simp only [bind_eq_ok] at ok
        obtain ⟨cap, found, ⟨⟩, ins, ⟨⟩, -, rest⟩ := ok
        refine List.forall_mem_cons.mpr ⟨fun cap' found' => ?_, ih rest⟩
        obtain rfl := Except.ok.inj (found.symm.trans found')
        exact validatePorts_named ins

private theorem validateAssembly_named {modules : List ModuleSlot}
    {artifacts : KeyMap String Artifact} {env : Env} {assembly : Assembly}
    {inputs : List NamedArtifact}
    (ok : validateAssembly env modules artifacts assembly inputs = .ok ()) :
    ∀ b ∈ assembly.bindings, b.toPort ≠ "" := by
  intro b member
  obtain ⟨node, cap, p, target, resolved, declared, -⟩ :=
    (Validation.validateAssembly_ok ok).bound b member
  have named : ∀ node ∈ assembly.nodes, ∀ cap, capabilityForNode modules node = .ok cap →
      ∀ p ∈ cap.inputs, p.name ≠ "" := by
    unfold validateAssembly at ok
    split_ifs at ok
    · cases ok
    · cases ok
    · simp only [bind_eq_ok] at ok
      obtain ⟨_, -, ⟨⟩, nodesOk, -⟩ := ok
      exact validateNodes_named nodesOk
  obtain ⟨listed, same⟩ := Validation.port_spec declared
  rw [← same]
  exact named node (Typing.nodeById_eq_some target).1 cap resolved p listed

variable [Sha256] [Prost] {policy : ArtifactStorePolicy} {s : State}

private theorem reachable_named (reached : Reachable policy s) {runId : String} {slot : RunSlot}
    (found : s.runs.lookup runId = some slot) :
    ∀ b ∈ slot.run.assembly.bindings, b.toPort ≠ "" := by
  have all : ∀ runId slot, s.runs.lookup runId = some slot →
      ∀ b ∈ slot.run.assembly.bindings, b.toPort ≠ "" := by
    refine reachable_invariant (P := fun s => ∀ runId slot, s.runs.lookup runId = some slot →
      ∀ b ∈ slot.run.assembly.bindings, b.toPort ≠ "") ?_ ?_ reached
    · intro runId slot found
      simp at found
    · intro s a guard _ before
      refine slots_apply (I := fun _ _ slot => ∀ b ∈ slot.run.assembly.bindings, b.toPort ≠ "")
        guard (fun _ _ named => named) ?_ ?_ before
      · rintro slot - ⟨env, req, assembly, maxSteps, rfl, -, ok⟩
        exact validateAssembly_named ok
      · intro runId slot act _ _ _ _ named
        rw [(apply_terms s.modules slot act).assembly]
        exact named
  exact all runId slot found

omit [Prost] in
private theorem plain_id (artifact : Artifact) : sep ∉ asBytes (artifactIdOf artifact) := by
  rw [artifactIdOf, asBytes_append, List.mem_append, not_or]
  exact ⟨by decide, (asBytes_sha256Hex _).1⟩

omit [Prost] in
private theorem id_ne_empty (artifact : Artifact) : artifactIdOf artifact ≠ "" := by
  intro empty
  have length := asBytes_artifactIdOf artifact
  rw [empty] at length
  cases length

/-- An input of a unit: a named port, and an artifact whose id does not contain the separator. -/
def Fed (na : NamedArtifact) : Prop :=
  na.name ≠ "" ∧ ∃ r, na.artifact = some r ∧ r.id ≠ "" ∧ sep ∉ asBytes r.id

theorem handedOut_fed (reached : Reachable policy s) {call : Call} {work : WorkItem}
    (handed : work ∈ handedOut (step policy s call).2) : ∀ na ∈ work.inputs, Fed na := by
  obtain ⟨req, slot, cs, -, found, listed, items, -⟩ := Provenance.handedOut_claims handed
  rw [items] at handed
  obtain ⟨c, taken, slot', rfl⟩ := Provenance.claimUnits_item handed
  obtain ⟨-, -, ready⟩ := Serial.mem_readyCandidates.mp (listed taken)
  have resolves := Single.currentUnit_resolves (Delivery.readyUnit_eq_some.mp ready).1
  rw [Delivery.resolveInputs_congr (Provenance.reapSlot_deliveries call.env slot)] at resolves
  intro na member
  have stored := Integrity.stored_of_resolved
    ((Integrity.reachable_referenced reached).slots _ slot found) resolves na member
  obtain ⟨b, bound, made⟩ := (mapM_mem resolves).2 na member
  obtain ⟨r, -, rfl⟩ := Option.map_eq_some_iff.mp made
  refine ⟨reachable_named reached found b (List.mem_filter.mp bound).1, r, rfl, ?_⟩
  obtain ⟨artifact, known⟩ := lookup_of_mem (stored r rfl)
  rw [(Content.reachable_storeSound reached r.id artifact known).1]
  exact ⟨id_ne_empty artifact, plain_id artifact⟩

end Kernel

section History

variable [Sha256] [Prost] {S : Type} {store : ArtifactStorePolicy} {clock : Nat → Env}
  {outside : Environment S Query Answer} {session : Session host (World S)} {calls : List HostCall}

theorem history_answers (reached : Reachable store session.world.kernel)
    {v : World S × Exchange Query Answer}
    (member : v ∈ history (inProcess store clock outside) session calls) :
    Reachable store v.1.kernel ∧ v.2 = ⟨v.2.1, (inProcess store clock outside v.2.1 v.1).2⟩ := by
  have follow : Orderly (fun _ v => Reachable store v.1.kernel ∧
      v.2 = ⟨v.2.1, (inProcess store clock outside v.2.1 v.1).2⟩) []
      (history (inProcess store clock outside) session calls) := by
    have anything : Orderly (fun _ _ => True) []
        (history (inProcess store clock outside) session calls) :=
      orderly_of_mem fun _ _ _ => trivial
    refine (history_follow (inProcess store clock outside)
      (T := fun _ (w : World S) => Reachable store w.kernel) ?_ session calls [] anything reached).1
    exact fun _ _ _ _ reached => ⟨⟨reached, rfl⟩, inProcess_reachable reached⟩
  obtain ⟨before, after, split⟩ := List.append_of_mem member
  exact orderly_iff.mp follow before v after split

variable {told : Told}

theorem stored_ref (reached : Reachable store session.world.kernel)
    (keyless : host.ctx.requestKey = "")
    (whole : told = (history (inProcess store clock outside) session calls).map Prod.snd)
    {module : String} {out : PortBody} {na : NamedArtifact}
    (stored : Stored host told module out na) :
    na = { name := out.port, artifact := some ⟨artifactIdOf (outputArtifact module out)⟩ } := by
  obtain ⟨named, r, before, after, ref, -, split⟩ := stored
  have put : (⟨.putArtifact (outputArtifact module out) host.ctx, .ok r⟩ : Exchange Query Answer) ∈
      told := split ▸ List.mem_append_right _ List.mem_cons_self
  rw [whole] at put
  obtain ⟨⟨w, e⟩, member, rfl⟩ := List.mem_map.mp put
  obtain ⟨-, answered⟩ := history_answers reached member
  have ok : Substrate.Kernel.Store.putArtifactCtx store (clock w.calls) (outputArtifact module out)
      host.ctx w.kernel = ((inProcess store clock outside
        (.putArtifact (outputArtifact module out) host.ctx) w).1.kernel, .ok r) :=
    Prod.ext rfl (eq_of_heq (Sigma.mk.inj answered).2).symm
  have address := (Content.putArtifact_ok keyless ok).1
  obtain ⟨name, artifact⟩ := na
  obtain rfl : name = out.port := named
  obtain rfl : artifact = some r := ref
  rw [← address]

theorem handed_fed (reached : Reachable store session.world.kernel)
    (whole : told = (history (inProcess store clock outside) session calls).map Prod.snd)
    {runId : String} {work : WorkItem} (handed : Handed host told runId work) :
    ∀ na ∈ work.inputs, Fed na := by
  obtain ⟨req, resp, asked, -, listed⟩ := handed
  rw [whole] at asked
  obtain ⟨⟨w, e⟩, member, rfl⟩ := List.mem_map.mp asked
  obtain ⟨reached, answered⟩ := history_answers reached member
  have all := @AllowList.handed_kernel _ _ S store clock outside
    (.claimReady req host.ctx) w _ _ rfl
  rw [← eq_of_heq (Sigma.mk.inj answered).2] at all
  have member : work ∈ handedOut (step store w.kernel
      ⟨.claimReady req, host.ctx, clock w.calls⟩).2 := by
    rw [← Multiset.mem_coe, all]
    exact listed
  exact handedOut_fed reached member

end History

section Transparency

variable [Sha256] {told : Told} {f : Behaviour}

omit [Sha256] in
theorem Fed.whole {na : NamedArtifact} (fed : Fed na) : Whole na := by
  obtain ⟨named, r, there, id, -⟩ := fed
  exact ⟨named, r, there, id⟩

omit [Sha256] in
private theorem entries_plain {named : List NamedArtifact} (fed : ∀ na ∈ named, Fed na)
    (single : (named.map (·.name)).Nodup) (ports : ∀ name ∈ named.map (·.name), sep ∉ asBytes name)
    {e : String × String} (member : e ∈ (idsByPort named).entries) :
    sep ∉ asBytes e.1 ∧ sep ∉ asBytes e.2 := by
  have there := (idsByPort_perm (fun na member => (fed na member).whole) single).subset member
  obtain ⟨na, listed, made⟩ := List.mem_filterMap.mp there
  obtain ⟨r, carried, rfl⟩ := Option.map_eq_some_iff.mp made
  obtain ⟨-, r', carried', -, plain⟩ := fed na listed
  obtain rfl := Option.some.inj (carried.symm.trans carried')
  exact ⟨ports na.name (List.mem_map_of_mem listed), plain⟩

omit [Sha256] in
private theorem keyFields_plain {work : WorkItem} {digest : String}
    (fed : ∀ na ∈ work.inputs, Fed na) (separate : Separate host told)
    (keyed : Keyed host told work digest) :
    ∀ field ∈ keyFields work.module work.moduleVersion digest work.capability
      (inputFingerprintMap work).entries, sep ∉ field := by
  have plain := separate.plain work digest keyed
  intro field member
  rcases List.mem_append.mp member with head | entry
  · obtain ⟨name, listed, rfl⟩ := List.mem_map.mp head
    exact plain name (List.mem_append_left (portsOf work) listed)
  · obtain ⟨e, listed, here⟩ := List.mem_flatMap.mp entry
    obtain ⟨port, id⟩ := entries_plain fed (separate.single work digest keyed)
      (fun name listed => plain name (List.mem_append_right
        [work.module, work.moduleVersion, digest, work.capability] listed)) listed
    rcases List.mem_cons.mp here with rfl | here
    · exact port
    · rwa [List.mem_singleton.mp here]

theorem keys_apart (fed : ∀ runId work, Handed host told runId work → ∀ na ∈ work.inputs, Fed na)
    (free : Set.InjOn Sha256.digest (keyBytes host told)) (separate : Separate host told) :
    KeysApart host told := by
  intro work digest work' digest' keyed keyed' same
  obtain ⟨⟨runId, handed⟩, named⟩ := keyed
  obtain ⟨⟨runId', handed'⟩, named'⟩ := keyed'
  have feeds := fed runId work handed
  have feeds' := fed runId' work' handed'
  have keyed : Keyed host told work digest := ⟨⟨runId, handed⟩, named⟩
  have keyed' : Keyed host told work' digest' := ⟨⟨runId', handed'⟩, named'⟩
  have bytes := free ⟨work, digest, keyed, rfl⟩ ⟨work', digest', keyed', rfl⟩
    (sha256Hex_inj (append_sha256Hex_inj same).2)
  rw [memoKeyBytes_eq, memoKeyBytes_eq] at bytes
  obtain ⟨module, version, rfl, capability, entries⟩ := keyFields_inj (frame_inj_of_notMem bytes
    (keyFields_plain feeds separate keyed) (keyFields_plain feeds' separate keyed'))
  refine ⟨module, version, rfl, capability, ?_⟩
  have whole : ∀ na ∈ work.inputs, Whole na := fun na member => (feeds na member).whole
  have whole' : ∀ na ∈ work'.inputs, Whole na := fun na member => (feeds' na member).whole
  have single := separate.single work digest keyed
  have perm : (pairsOf work.inputs).Perm (pairsOf work'.inputs) := by
    refine (idsByPort_perm whole single).symm.trans ?_
    rw [show (idsByPort work.inputs).entries = (idsByPort work'.inputs).entries from entries]
    exact idsByPort_perm whole' (separate.single work' digest keyed')
  have ports := separate.ordered work digest work' keyed keyed' module version capability (by
    have keys := perm.map Prod.fst
    rwa [pairsOf_ports whole, pairsOf_ports whole'] at keys)
  refine eq_of_perm_of_keys ?_ ?_ perm
  · rw [pairsOf_ports whole, pairsOf_ports whole']
    exact ports
  · rw [pairsOf_ports whole]
    exact single

variable (addressed : ∀ module out na, Stored host told module out na →
  na = { name := out.port, artifact := some ⟨artifactIdOf (outputArtifact module out)⟩ })

include addressed

theorem stored_eq {work : WorkItem} {digest : String} {output : StepOutput}
    {outputs : List NamedArtifact}
    (returned : output.outputs =
      f work.module work.moduleVersion digest work.capability (pairsOf work.inputs))
    (stored : List.Forall₂ (Stored host told work.module) output.outputs outputs) :
    outputs = executed f digest work := by
  rw [executed, ← returned]
  clear returned
  generalize output.outputs = outs at stored
  induction stored with
  | nil => rfl
  | cons here _ ih => rw [List.map_cons, ← ih, addressed _ _ _ here]

theorem recorded_perm {work : WorkItem} {output : StepOutput} {outputs : List NamedArtifact}
    (stored : List.Forall₂ (Stored host told work.module) output.outputs outputs)
    (distinct : (output.outputs.map (·.port)).Nodup) (blank : "" ∉ output.outputs.map (·.port)) :
    ((idsByPort outputs).entries.map fun e =>
      ({ name := e.1, artifact := some ⟨e.2⟩ } : NamedArtifact)).Perm outputs := by
  have ports : outputs.map (·.name) = output.outputs.map (·.port) := by
    clear distinct blank
    generalize output.outputs = outs at stored
    induction stored with
    | nil => rfl
    | cons here _ ih => rw [List.map_cons, List.map_cons, ih, addressed _ _ _ here]
  have whole : ∀ na ∈ outputs, Whole na := by
    intro na member
    refine ⟨fun empty => blank ?_, ?_⟩
    · rw [← ports, ← empty]
      exact List.mem_map_of_mem member
    · obtain ⟨out, -, here⟩ := (forall₂_mem stored).2 na member
      rw [addressed _ _ _ here]
      exact ⟨_, rfl, id_ne_empty _⟩
  have entries := (idsByPort_perm whole (ports ▸ distinct)).map fun e =>
    ({ name := e.1, artifact := some ⟨e.2⟩ } : NamedArtifact)
  rwa [named_pairs whole] at entries

end Transparency

section Session

variable {W : Type} {past : List (W × Exchange Query Answer)} {work : WorkItem}

theorem ranIn_of_ran {output : StepOutput} (ran : Ran (past.map Prod.snd) work output) :
    ∃ w, RanIn past w work output := by
  obtain ⟨step, after, mine, member⟩ := ran
  obtain ⟨⟨w, e⟩, listed, rfl⟩ := List.mem_map.mp member
  exact ⟨w, step, after, mine, listed⟩

theorem ran_of_ranIn {w : W} {output : StepOutput} (ran : RanIn past w work output) :
    Ran (past.map Prod.snd) work output := by
  obtain ⟨step, after, mine, member⟩ := ran
  exact ⟨step, after, mine, List.mem_map_of_mem member⟩

theorem RanIn.mono {past' : List (W × Exchange Query Answer)} {w : W} {output : StepOutput}
    (ran : RanIn past w work output) (among : past ⊆ past') : RanIn past' w work output := by
  obtain ⟨step, after, mine, member⟩ := ran
  exact ⟨step, after, mine, among member⟩

theorem handed_among {told told' : Told} {runId : String} (handed : Handed host told runId work)
    (among : told ⊆ told') : Handed host told' runId work := by
  obtain ⟨req, resp, asked, here, listed⟩ := handed
  exact ⟨req, resp, among asked, here, listed⟩

theorem stored_after {told : Told} {module : String} {out : PortBody} {na : NamedArtifact}
    (stored : Stored host told module out na) (earlier : Told) :
    Stored host (earlier ++ told) module out na := by
  obtain ⟨named, r, before, after, ref, ⟨work, output, mine, ⟨step, done, same, ran⟩, returned⟩, rfl⟩ :=
    stored
  exact ⟨named, r, earlier ++ before, after, ref, ⟨work, output, mine,
    ⟨step, done, same, List.mem_append_right _ ran⟩, returned⟩, (List.append_assoc ..).symm⟩

theorem lookedUp_after [Sha256] {told : Told} {digest : String} {record : MemoRecord}
    (looked : LookedUp told work digest record) (earlier : Told) :
    LookedUp (earlier ++ told) work digest record := by
  obtain ⟨named, before, after, rfl, unread⟩ := looked
  exact ⟨named, earlier ++ before, after, (List.append_assoc ..).symm, unread⟩

variable [Sha256] [Prost] {S : Type} {f : Behaviour} {store : ArtifactStorePolicy}
  {clock : Nat → Env} {outside : Environment S Query Answer} {session : Session host (World S)}
  {calls : List HostCall}

private theorem recorded_source {told : Told}
    (whole : told = (history (inProcess store clock outside) session calls).map Prod.snd)
    (addressed : ∀ module out na, Stored host told module out na →
      na = { name := out.port, artifact := some ⟨artifactIdOf (outputArtifact module out)⟩ })
    (lawful : Lawful (inProcess store clock outside) f
      (history (inProcess store clock outside) session calls))
    (settled : Settled (inProcess store clock outside) session calls)
    (separate : Separate host told) {record : MemoRecord} {done : Except FrameworkError Unit}
    (put : (⟨.memoPut record, done⟩ : Exchange Query Answer) ∈ told) :
    ∃ source digest, Keyed host told source digest ∧
      record.key = unitKeyOf source.module digest source ∧
      (recordToNamedOutputs record).Perm (executed f digest source) := by
  subst whole
  obtain ⟨v, listed, same⟩ := List.mem_map.mp put
  obtain ⟨past, rest, split⟩ := List.append_of_mem listed
  obtain ⟨before, call, after, first, last, parts, here, sofar, fit⟩ := history_fits_at _ split
  rw [same] at fit
  obtain ⟨runId, source, digest, produced, handed, named, ⟨output, ran, stored⟩, rfl⟩ := fit
  obtain ⟨w, ranIn⟩ := ranIn_of_ran ran
  have own : first ⊆ segment (inProcess store clock outside)
      (session.run (inProcess store clock outside) before) call :=
    here ▸ List.subset_append_left first (v :: last)
  have recorded : v ∈ segment (inProcess store clock outside)
      (session.run (inProcess store clock outside) before) call :=
    here ▸ List.mem_append_right first List.mem_cons_self
  have inForce := settled before call after parts w source output _ done (ranIn.mono own)
    (List.mem_map.mpr ⟨v, recorded, same⟩) rfl
  rw [sofar] at split
  have among : first ⊆ history (inProcess store clock outside) session calls :=
    fun u member => split ▸ List.mem_append_left _ (List.mem_append_right _ member)
  have toldAmong : first.map Prod.snd ⊆
      (history (inProcess store clock outside) session calls).map Prod.snd :=
    List.map_subset Prod.snd among
  have kept : List.Forall₂ (Stored host ((history (inProcess store clock outside) session
      calls).map Prod.snd) source.module) output.outputs produced := by
    rw [split, List.map_append, List.map_append]
    exact stored.imp fun out na there =>
      stored_lasting source.module out na _ _ (stored_after there _)
  have keyed : Keyed host ((history (inProcess store clock outside) session calls).map Prod.snd)
      source digest := ⟨⟨runId, handed_among handed toldAmong⟩, named.1, toldAmong named.2⟩
  obtain ⟨distinct, blank⟩ := separate.returned source digest output keyed
    (ran_of_ranIn (ranIn.mono among))
  refine ⟨source, digest, keyed, rfl, ?_⟩
  rw [← stored_eq addressed (lawful w source output digest (ranIn.mono among) inForce) kept]
  exact recorded_perm addressed kept distinct blank

/-- Where the memo store returns what was put into it, plugins are lawful, no hash confuses two
keys, units are recorded under the digest they were executed under, names are separate and calls go
without a request key, keys tell units apart over every sequence of calls, and whatever is committed
for a unit is what executing it commits. -/
theorem memo_transparent (f : Behaviour) (store : ArtifactStorePolicy) (clock : Nat → Env)
    (outside : Environment S Query Answer) (session : Session host (World S))
    (reached : Reachable store session.world.kernel) (calls : List HostCall)
    (keyless : host.ctx.requestKey = "") :
    let env := inProcess store clock outside
    let moments := history env session calls
    let told := moments.map Prod.snd
    Orderly Remembers [] told → Lawful env f moments → Set.InjOn Sha256.digest (keyBytes host told) →
      Settled env session calls → Separate host told →
        KeysApart host told ∧ Orderly (fun past v => Transparent host env f past v.2) [] moments := by
  intro env moments told remembers lawful free settled separate
  have apart : KeysApart host told := keys_apart
    (fun runId work handed => handed_fed reached rfl handed) free separate
  have addressed : ∀ module out na, Stored host told module out na →
      na = { name := out.port, artifact := some ⟨artifactIdOf (outputArtifact module out)⟩ } :=
    fun module out na stored => stored_ref reached keyless rfl stored
  refine ⟨apart, orderly_iff.mpr fun past v rest split => ?_⟩
  obtain ⟨before, call, after, first, last, parts, here, sofar, fit⟩ := history_fits_at _ split
  rw [List.nil_append]
  obtain ⟨w', q, answer⟩ := v
  cases q with
  | commit submitted ctx =>
      obtain ⟨work, handed, named, source⟩ := fit
      have own : first ⊆ past := sofar ▸ List.subset_append_right _ _
      have among : past ⊆ moments := fun u member => split ▸ List.mem_append_left _ member
      have toldOwn : first.map Prod.snd ⊆ past.map Prod.snd := List.map_subset Prod.snd own
      have toldAmong : past.map Prod.snd ⊆ told := List.map_subset Prod.snd among
      refine ⟨work, handed_among handed toldOwn, named, ?_⟩
      rcases source with ⟨output, ran, stored⟩ | ⟨digest, record, looked, same⟩
      · obtain ⟨w, ranIn⟩ := ranIn_of_ran ran
        have kept : List.Forall₂ (Stored host (past.map Prod.snd) work.module) output.outputs
            submitted.outputs := by
          rw [sofar, List.map_append]
          exact stored.imp fun out na there => stored_after there _
        refine .inl ⟨w, output, ranIn.mono own, kept, fun digest inForce => ?_⟩
        refine stored_eq (fun module out na there => addressed module out na ?_)
          (lawful w work output digest (ranIn.mono fun u member => among (own member)) inForce) kept
        change Stored host (moments.map Prod.snd) module out na
        rw [split, List.map_append]
        exact stored_lasting module out na _ _ there
      · have lookedUp : LookedUp (past.map Prod.snd) work digest record := by
          rw [sofar, List.map_append]
          exact lookedUp_after looked _
        refine .inr ⟨digest, record, lookedUp, same, ?_⟩
        obtain ⟨pre, post, parted⟩ := List.append_of_mem (toldAmong lookedUp.recalled)
        obtain ⟨key, done, put⟩ := orderly_iff.mp remembers pre _ post parted record rfl
        obtain ⟨source, digest', keyed, made, perm⟩ := recorded_source rfl addressed lawful settled
          separate (show _ ∈ told from parted ▸ List.mem_append_left _ put)
        obtain ⟨module, version, rfl, capability, inputs⟩ := apart source digest' work digest keyed
          ⟨⟨submitted.runId, handed_among handed fun e member => toldAmong (toldOwn member)⟩,
            lookedUp.digested.1, toldAmong lookedUp.digested.2⟩ (made.symm.trans key)
        have alike : executed f digest' source = executed f digest' work := by
          rw [executed, executed, module, version, capability, inputs]
        rw [same, ← alike]
        exact perm
  | _ => trivial

end Session

section Memory

variable [Sha256] [Prost] {S : Type} {store : ArtifactStorePolicy} {clock : Nat → Env}
  {outside : Environment S Query Answer}

/-- The records of a memo store are under their keys, and were put there. -/
private def Recorded (told : Told) (memo : MemoryMemo) : Prop :=
  ∀ key record, memo.lookup key = some record → record.key = key ∧
    ∃ done, (⟨.memoPut record, done⟩ : Exchange Query Answer) ∈ told

private theorem recorded_ask {told : Told} {w : World (Stores S)} (q : Query)
    (recorded : Recorded told w.rest.memo) :
    let after := inProcess store clock (inMemory outside) q w
    Remembers told ⟨q, after.2⟩ ∧ Recorded (told ++ [⟨q, after.2⟩]) after.1.rest.memo := by
  have grown (e : Exchange Query Answer) : Recorded (told ++ [e]) w.rest.memo := by
    intro key record found
    obtain ⟨same, done, put⟩ := recorded key record found
    exact ⟨same, done, List.mem_append_left _ put⟩
  cases q with
  | memoGet key => exact ⟨fun record found => recorded key record (Except.ok.inj found), grown _⟩
  | memoPut record =>
      refine ⟨trivial, fun key other found => ?_⟩
      have found : (w.rest.memo.insert record.key record).lookup key = some other := found
      rw [lookup_insert_of] at found
      split_ifs at found with here
      · obtain rfl := Option.some.inj found
        exact ⟨here.symm, _, List.mem_append_right _ (List.mem_singleton_self _)⟩
      · exact grown _ key other found
  | _ => exact ⟨trivial, grown _⟩

/-- A memo store in memory that starts empty returns what was put into it. -/
theorem inMemory_remembers {session : Session host (World (Stores S))}
    (empty : session.world.rest.memo = ∅) (calls : List HostCall) :
    Orderly Remembers []
      ((history (inProcess store clock (inMemory outside)) session calls).map Prod.snd) := by
  have anything : Orderly (fun _ _ => True) []
      (history (inProcess store clock (inMemory outside)) session calls) :=
    orderly_of_mem fun _ _ _ => trivial
  refine orderly_map.mpr (history_follow (inProcess store clock (inMemory outside))
    (T := fun past (w : World (Stores S)) => Recorded (past.map Prod.snd) w.rest.memo)
    (fun past w q _ recorded => ?_) session calls [] anything ?_).1
  · rw [List.map_append]
    exact recorded_ask q recorded
  · intro key record found
    rw [empty] at found
    cases found

end Memory

section Pages

open Substrate.Kernel.Concrete

/-- `pager@1` splits what it hears into pages, and counts them. -/
def pager : ModuleManifest :=
  { name := "pager", version := "1"
    provides := [{ name := "split", inputs := [{ name := "heard", traits := ["text"] }]
                   outputs := [{ name := "page", traits := ["text"], multiple := true },
                     { name := "count", traits := ["text"] }]
                   firing := Firing.once.asI32 }] }

def pages : Assembly :=
  { id := "pages", nodes := [⟨"n", "pager", "1", "split"⟩]
    bindings := [{ toNode := "n", toPort := "heard", input := "line" }]
    terminal := some ⟨"n", "count"⟩ }

def body (port words : String) : PortBody := { port, traits := .singleton "text" (asBytes words) }

/-- Plugins whose digest and values change while their digest is read and their steps end. -/
def versioned (version : Nat → String) (values : String → List PortBody) :
    Environment Nat Query Answer
  | .moduleDigest _, n => (n + 1, some (version n))
  | .onFinal _ _ _, n => (n + 1, none)
  | q, n => (n, (plainPlugins (fun _ => .ok ⟨values (version n)⟩) q ()).2)

/-- A host of `pager@1` with a memo store. -/
def pagerHost : Host :=
  { plugins := ["pager"], ctx := {}, uiPersist := .localOnly, storage := false, storageSchemas := ∅,
    memo := true }

/-- A kernel that knows `pager@1` and has one line. -/
def pagerWorld {S : Type} (rest : S) : World (Stores S) :=
  ⟨Substrate.Kernel.Api.exec policy {}
    [callAt 0 (.register pager), callAt 0 (.putArtifact (text "one"))], 0, ⟨∅, ∅, rest⟩⟩

def pagerSession : Session pagerHost (World (Stores Nat)) := ⟨{}, pagerWorld 0⟩

def startPages (runId : String) : HostCall :=
  .startPipeline runId pages [given "line" (text "one")]
    { FrameworkPolicy.converge with memo := { enabled := true } }

/-- The same pipeline under several ids. -/
def pagerCalls (runIds : List String) : List HostCall :=
  runIds.flatMap fun runId => [startPages runId, .drive 2 runId]

section Versions

variable (version : Nat → String) (values : String → List PortBody)

def pagerEnv : Environment (World (Stores Nat)) Query Answer :=
  inProcess policy (fun _ => envAt 0) (inMemory (versioned version values))

/-- The unit of `pager@1`, under whatever id. -/
def isPager (work : WorkItem) : Bool :=
  work.module == "pager" && work.moduleVersion == "1" && work.capability == "split" &&
    work.inputs == [given "heard" (text "one")]

/-- Whether units, digests and values are those of `pager@1`. -/
def uniform (moments : List (World (Stores Nat) × Exchange Query Answer)) : Bool :=
  moments.all fun v => match v with
    | (_, ⟨.claimReady _ _, .ok resp⟩) => resp.1.items.all isPager
    | (w, ⟨.moduleDigest _, digest⟩) => digest == some (version w.rest.rest)
    | (w, ⟨.execute _ _, (_, .ok output)⟩) => output.outputs == values (version w.rest.rest)
    | _ => true

/-- Whether every record of a call is under the digest of its executions. -/
def steady (moments : List (World (Stores Nat) × Exchange Query Answer)) : Bool :=
  moments.all fun v => match v with
    | (w, ⟨.execute _ _, _⟩) => moments.all fun u => match u with
      | (_, ⟨.memoPut record, _⟩) => record.moduleDigest == version w.rest.rest
      | _ => true
    | _ => true

/-- Both, call by call. -/
def checks (session : Session pagerHost (World (Stores Nat))) : List HostCall → Bool
  | [] => true
  | call :: calls =>
      let moments := segment (pagerEnv version values) session call
      uniform version values moments && steady version moments &&
        checks (session.after (pagerEnv version values) call) calls

end Versions

/-- One page, and two. -/
def onePage : List PortBody := [body "page" "a", body "count" "1"]

def twoPages : List PortBody := [body "page" "a", body "page" "b", body "count" "2"]

/-- One page before a revision, none after it. -/
def revised (digest : String) : List PortBody :=
  if digest = "d" then onePage else [body "count" "0"]

/-- `pager@1` is revised after two pipelines, or while it is executed. -/
def betweenRuns (n : Nat) : String := if n < 4 then "d" else "e"

def withinStep (n : Nat) : String := if n < 2 then "d" else "e"

section Uniform

variable {version : Nat → String} {values : String → List PortBody}
  {session : Session pagerHost (World (Stores Nat))} {calls : List HostCall}

private theorem inForce_iff {w : World (Stores Nat)} {module digest : String} :
    InForce (pagerEnv version values) w module digest ↔
      digest ≠ "" ∧ version w.rest.rest = digest := by
  rw [InForce]
  exact and_congr_right fun _ => Option.some_inj

private theorem checks_uniform (checked : checks version values session calls = true) :
    uniform version values (history (pagerEnv version values) session calls) = true := by
  induction calls generalizing session with
  | nil => rfl
  | cons call calls ih =>
      simp only [checks, Bool.and_eq_true] at checked
      change uniform version values
        (segment (pagerEnv version values) session call ++ history _ _ calls) = true
      rw [uniform, List.all_append, Bool.and_eq_true]
      exact ⟨checked.1.1, ih checked.2⟩

private theorem checks_settled (named : ∀ n, version n ≠ "")
    (checked : checks version values session calls = true) :
    Settled (pagerEnv version values) session calls := by
  rintro before call after rfl w work output record done ⟨step, left, -, ran⟩ put -
  induction before generalizing session with
  | nil =>
      rw [List.nil_append, checks, Bool.and_eq_true, Bool.and_eq_true] at checked
      obtain ⟨⟨w', e⟩, there, rfl⟩ := List.mem_map.mp put
      have same := List.all_eq_true.mp (List.all_eq_true.mp checked.1.2 _ ran) _ there
      have same : record.moduleDigest = version w.rest.rest := beq_iff_eq.mp same
      exact inForce_iff.mpr ⟨same ▸ named _, same.symm⟩
  | cons first before ih =>
      rw [List.cons_append, checks, Bool.and_eq_true] at checked
      exact ih checked.2 ran put

variable (checked :
  uniform version values (history (pagerEnv version values) session calls) = true)

include checked

private theorem uniform_handed {runId : String} {work : WorkItem}
    (handed : Handed pagerHost
      ((history (pagerEnv version values) session calls).map Prod.snd) runId work) :
    work.module = "pager" ∧ work.moduleVersion = "1" ∧ work.capability = "split" ∧
      work.inputs = [given "heard" (text "one")] := by
  obtain ⟨req, resp, asked, -, listed⟩ := handed
  obtain ⟨⟨w, e⟩, there, rfl⟩ := List.mem_map.mp asked
  have same := List.all_eq_true.mp (List.all_eq_true.mp checked _ there) work listed
  simp only [isPager, Bool.and_eq_true, beq_iff_eq] at same
  exact ⟨same.1.1.1, same.1.1.2, same.1.2, same.2⟩

private theorem uniform_digested {work : WorkItem} {digest : String}
    (digested : Digested ((history (pagerEnv version values) session calls).map Prod.snd)
      work digest) : ∃ n, digest = version n := by
  obtain ⟨⟨w, e⟩, there, rfl⟩ := List.mem_map.mp digested.2
  have same := List.all_eq_true.mp checked _ there
  exact ⟨w.rest.rest, Option.some.inj (beq_iff_eq.mp same)⟩

private theorem uniform_ran {w : World (Stores Nat)} {work : WorkItem} {output : StepOutput}
    (ran : RanIn (history (pagerEnv version values) session calls) w work output) :
    output.outputs = values (version w.rest.rest) := by
  obtain ⟨step, after, -, member⟩ := ran
  have same := List.all_eq_true.mp checked _ member
  exact beq_iff_eq.mp same

private theorem uniform_lawful : Lawful (pagerEnv version values)
    (fun _ _ digest _ _ => values digest) (history (pagerEnv version values) session calls) := by
  intro w work output digest ran inForce
  rw [uniform_ran checked ran, (inForce_iff.mp inForce).2]

variable (named : ∀ n, version n = "d" ∨ version n = "e")

include named

private theorem uniform_free : Set.InjOn Sha256.digest (keyBytes pagerHost
    ((history (pagerEnv version values) session calls).map Prod.snd)) := by
  have free : Sha256.digest (memoKeyBytes "pager" "1" "d" "split"
      (idsByPort [given "heard" (text "one")])) ≠ Sha256.digest (memoKeyBytes "pager" "1" "e" "split"
        (idsByPort [given "heard" (text "one")])) := by decide +kernel
  rintro _ ⟨work, digest, ⟨⟨runId, handed⟩, digested⟩, rfl⟩ _
    ⟨work', digest', ⟨⟨runId', handed'⟩, digested'⟩, rfl⟩ same
  obtain ⟨module, moduleVersion, capability, inputs⟩ := uniform_handed checked handed
  obtain ⟨module', moduleVersion', capability', inputs'⟩ := uniform_handed checked handed'
  obtain ⟨n, rfl⟩ := uniform_digested checked digested
  obtain ⟨n', rfl⟩ := uniform_digested checked digested'
  rw [module, moduleVersion, capability, inputFingerprintMap, inputs, module', moduleVersion',
    capability', inputFingerprintMap, inputs'] at same ⊢
  rcases named n with d | e <;> rcases named n' with d' | e'
  · rw [d, d']
  · rw [d, e'] at same
    exact absurd same free
  · rw [e, d'] at same
    exact absurd same.symm free
  · rw [e, e']

private theorem uniform_separate (single : ∀ digest, ((values digest).map (·.port)).Nodup ∧
    "" ∉ (values digest).map (·.port)) : Separate pagerHost
      ((history (pagerEnv version values) session calls).map Prod.snd) where
  plain := by
    rintro work digest ⟨⟨runId, handed⟩, digested⟩
    obtain ⟨module, moduleVersion, capability, inputs⟩ := uniform_handed checked handed
    obtain ⟨n, rfl⟩ := uniform_digested checked digested
    rw [module, moduleVersion, capability, portsOf, inputs]
    rcases named n with d | e
    · rw [d]
      decide
    · rw [e]
      decide
  single := by
    rintro work digest ⟨⟨runId, handed⟩, -⟩
    rw [portsOf, (uniform_handed checked handed).2.2.2]
    exact List.nodup_singleton _
  ordered := by
    rintro work digest work' ⟨⟨runId, handed⟩, -⟩ ⟨⟨runId', handed'⟩, -⟩ - - - -
    rw [portsOf, portsOf, (uniform_handed checked handed).2.2.2,
      (uniform_handed checked handed').2.2.2]
  returned work digest output _ ran := by
    obtain ⟨w, ran⟩ := ranIn_of_ran ran
    rw [uniform_ran checked ran]
    exact single _

end Uniform

private theorem revised_single (digest : String) :
    ((revised digest).map (·.port)).Nodup ∧ "" ∉ (revised digest).map (·.port) := by
  rw [revised]
  split <;> decide

/-- With one page before and none after its revision, `pager@1` is cached as it is executed. -/
theorem onePage_transparent :
    let env := pagerEnv betweenRuns revised
    let moments := history env pagerSession (pagerCalls ["r", "q", "p"])
    KeysApart pagerHost (moments.map Prod.snd) ∧ Orderly
      (fun past v => Transparent pagerHost env (fun _ _ digest _ _ => revised digest) past v.2) []
      moments := by
  have checked : checks betweenRuns revised pagerSession (pagerCalls ["r", "q", "p"]) = true := by
    decide +kernel
  have named : ∀ n, betweenRuns n = "d" ∨ betweenRuns n = "e" := fun n => ite_eq_or_eq _ _ _
  have alike := checks_uniform checked
  refine memo_transparent (fun _ _ digest _ _ => revised digest) policy (fun _ => envAt 0)
    (inMemory (versioned betweenRuns revised)) pagerSession ⟨_, rfl⟩ (pagerCalls ["r", "q", "p"])
    rfl (inMemory_remembers rfl _) (uniform_lawful alike) (uniform_free alike named)
    (checks_settled (fun n => ?_) checked) (uniform_separate alike named revised_single)
  rcases named n with d | e
  · exact d ▸ by decide
  · exact e ▸ by decide

/-- The digest that was named last. -/
def lastDigest (told : Told) : Option String :=
  told.reverse.findSome? fun e => match e with
    | ⟨.moduleDigest _, digest⟩ => digest
    | _ => none

private theorem lastDigest_lookedUp {told : Told} {work : WorkItem} {digest : String}
    {record : MemoRecord} (looked : LookedUp told work digest record) :
    lastDigest told = some digest := by
  obtain ⟨-, before, after, rfl, unread⟩ := looked
  rw [lastDigest, List.reverse_append, List.reverse_cons, List.reverse_cons, List.append_assoc,
    List.append_assoc, List.findSome?_append, List.findSome?_eq_none_iff.mpr]
  · rfl
  · rintro ⟨q, answer⟩ member
    have still := unread _ (List.mem_reverse.mp member)
    cases q with
    | moduleDigest module => cases still
    | _ => rfl

/-- Whether a commit is of a unit that was not executed, with another number of outputs than its
plugin returns. -/
def miscounts (values : String → List PortBody) (told : Told) (e : Exchange Query Answer) : Bool :=
  match e with
  | ⟨.commit submitted _, _⟩ =>
      (told.all fun e => match e with
        | ⟨.execute _ step, _⟩ => step.work.id != submitted.workId
        | _ => true) &&
      (lastDigest told).all fun digest => submitted.outputs.length != (values digest).length
  | _ => false

private theorem miscounts_opaque {W : Type} {env : Environment W Query Answer}
    {values : String → List PortBody} {past : List (W × Exchange Query Answer)}
    {e : Exchange Query Answer} (checked : miscounts values (past.map Prod.snd) e = true) :
    ¬Transparent pagerHost env (fun _ _ digest _ _ => values digest) past e := by
  obtain ⟨q, answer⟩ := e
  cases q with
  | commit submitted ctx =>
      simp only [miscounts, Bool.and_eq_true] at checked
      obtain ⟨idle, other⟩ := checked
      rintro ⟨work, -, mine, ⟨w, output, ran, -⟩ | ⟨digest, record, looked, -, perm⟩⟩
      · obtain ⟨step, after, rfl, member⟩ := ran_of_ranIn ran
        have differs := List.all_eq_true.mp idle _ member
        exact bne_iff_ne.mp differs mine.symm
      · rw [lastDigest_lookedUp looked, Option.all_some, bne_iff_ne] at other
        have length := perm.length_eq
        rw [executed, List.length_map] at length
        exact other length
  | _ => cases checked

private theorem opaque_at {W : Type} {env : Environment W Query Answer}
    {values : String → List PortBody} {moments : List (W × Exchange Query Answer)} {n : Nat}
    (dropped : (moments[n]?).any
      (fun v => miscounts values ((moments.take n).map Prod.snd) v.2) = true) :
    ¬Orderly (fun past v => Transparent pagerHost env (fun _ _ digest _ _ => values digest) past v.2)
      [] moments := by
  intro transparent
  obtain ⟨v, there, miscounted⟩ := (Option.any_eq_true _ _).mp dropped
  obtain ⟨bound, rfl⟩ := List.getElem?_eq_some_iff.mp there
  have split := (List.take_append_drop n moments).symm
  rw [List.drop_eq_getElem_cons bound] at split
  exact miscounts_opaque miscounted (orderly_iff.mp transparent _ _ _ split)

/-- With two pages on one port, the second pipeline commits one of them. -/
theorem twoPages_dropped :
    let env := pagerEnv (fun _ => "d") fun _ => twoPages
    let calls := pagerCalls ["r", "q"]
    let moments := history env pagerSession calls
    let told := moments.map Prod.snd
    pagerHost.ctx.requestKey = "" ∧ Orderly Remembers [] told ∧
      Lawful env (fun _ _ _ _ _ => twoPages) moments ∧
      Set.InjOn Sha256.digest (keyBytes pagerHost told) ∧ Settled env pagerSession calls ∧
      ¬(KeysApart pagerHost told ∧
        Orderly (fun past v => Transparent pagerHost env (fun _ _ _ _ _ => twoPages) past v.2) []
          moments) := by
  have checked : checks (fun _ => "d") (fun _ => twoPages) pagerSession (pagerCalls ["r", "q"]) =
      true := by decide +kernel
  have alike := checks_uniform checked
  refine ⟨rfl, inMemory_remembers rfl _, uniform_lawful alike,
    uniform_free alike fun _ => .inl rfl, checks_settled (fun _ => by decide) checked, ?_⟩
  have dropped : ((history (pagerEnv (fun _ => "d") fun _ => twoPages) pagerSession
      (pagerCalls ["r", "q"]))[24]?).any (fun v => miscounts (fun _ => twoPages)
        (((history (pagerEnv (fun _ => "d") fun _ => twoPages) pagerSession
          (pagerCalls ["r", "q"])).take 24).map Prod.snd) v.2) = true := by decide +kernel
  exact fun both => opaque_at dropped both.2

/-- A unit that ends under another digest than it began with is recorded under the wrong one. -/
theorem digest_shifted :
    let env := pagerEnv withinStep revised
    let calls := pagerCalls ["r", "q"]
    let moments := history env pagerSession calls
    let told := moments.map Prod.snd
    Orderly Remembers [] told ∧ Lawful env (fun _ _ digest _ _ => revised digest) moments ∧
      Set.InjOn Sha256.digest (keyBytes pagerHost told) ∧ Separate pagerHost told ∧
      ¬Orderly (fun past v => Transparent pagerHost env
        (fun _ _ digest _ _ => revised digest) past v.2) [] moments := by
  have alike : uniform withinStep revised (history (pagerEnv withinStep revised) pagerSession
      (pagerCalls ["r", "q"])) = true := by decide +kernel
  have named : ∀ n, withinStep n = "d" ∨ withinStep n = "e" := fun n => ite_eq_or_eq _ _ _
  refine ⟨inMemory_remembers rfl _, uniform_lawful alike, uniform_free alike named,
    uniform_separate alike named revised_single, ?_⟩
  have dropped : ((history (pagerEnv withinStep revised) pagerSession
      (pagerCalls ["r", "q"]))[23]?).any (fun v => miscounts revised
        (((history (pagerEnv withinStep revised) pagerSession
          (pagerCalls ["r", "q"])).take 23).map Prod.snd) v.2) = true := by decide +kernel
  exact opaque_at dropped

end Pages

end Substrate.Protocol.Memos
