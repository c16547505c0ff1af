/- ID: Substrate/Protocol/Stream
   digest: A quiet run of ALWAYS nodes has settled every node whose last commit was its newest unit. -/

import Substrate.Protocol.Confluence
import Substrate.Protocol.Converge

set_option autoImplicit false
set_option relaxedAutoImplicit false

namespace Substrate.Protocol.Stream

open Substrate.Kernel.Wire
open Substrate.Kernel.Hashing
open Substrate.Kernel.Memory
open Substrate.Kernel.Registry
open Substrate.Kernel.Assembly (nodeById)
open Substrate.Kernel.Schedule
open Substrate.Kernel.Runs
open Substrate.Kernel.Work
open Substrate.Kernel.Api
open Substrate.Protocol.Atoms
open Substrate.Protocol.Slots
open Substrate.Protocol.Delivery
open Substrate.Protocol.Identity
open Substrate.Protocol.Serial (expireAct)
open Substrate.Protocol.Refine
open Substrate.Protocol.Steady
open Substrate.Protocol.Single (currentUnit_resolves)
open Substrate.Protocol.Confluence (workId_spell)
open Substrate.Protocol.Converge
open Substrate.Protocol.Frozen (readyUnit_caps)
open Substrate.Protocol.Typing (resolveBinding_apply find_admitInput validateOutput_ok nodeById_eq_some)
open Substrate.Protocol.Validation
open Substrate.Library.Checks
open Substrate.Library.FiniteMap
open Substrate.Library.Framing (insertionSort_key_inj flatMap_key_inj)
open Substrate.Library.Transition

section Streams

variable [Sha256]

/-- No run input is at its last generation. -/
def Unsaturated (slot : RunSlot) : Prop :=
  ∀ name, ((slot.inputEpochs.lookup name).getD 0).toNat + 1 < 2 ^ 64

/-- The generation of a binding's source, as a number. -/
def generation (slot : RunSlot) (b : Binding) : Nat := (bindingEpoch slot b).toNat

/-- A slot before and after: generations only grow, and a binding at the same generation delivers
the same artifact. -/
structure Earlier (before after : RunSlot) : Prop where
  assembly : after.run.assembly = before.run.assembly
  policy : after.run.policy = before.run.policy
  grown : ∀ b, generation before b ≤ generation after b
  same : ∀ b, generation before b = generation after b →
    resolveBinding before b = resolveBinding after b

omit [Sha256] in
theorem Earlier.refl (slot : RunSlot) : Earlier slot slot :=
  ⟨rfl, rfl, fun _ => le_rfl, fun _ _ => rfl⟩

omit [Sha256] in
theorem Earlier.trans {a b c : RunSlot} (ab : Earlier a b) (bc : Earlier b c) : Earlier a c := by
  refine ⟨bc.assembly.trans ab.assembly, bc.policy.trans ab.policy,
    fun x => (ab.grown x).trans (bc.grown x), fun x same => ?_⟩
  have mid : generation a x = generation b x :=
    le_antisymm (ab.grown x) (by rw [same]; exact bc.grown x)
  exact (ab.same x mid).trans (bc.same x (mid.symm.trans same))

omit [Sha256] in
theorem earlier_of_deliveries {before after : RunSlot} (same : SameDeliveries after before) :
    Earlier before after := by
  have generations : ∀ b, generation before b = generation after b := by
    intro b
    unfold generation bindingEpoch
    rw [same.inputEpochs, same.nodeCommits]
  exact ⟨same.assembly, same.policy, fun b => (generations b).le,
    fun b _ => (resolveBinding_congr same b).symm⟩

omit [Sha256] in
theorem succ_toNat {n : UInt64} (room : n.toNat + 1 < 2 ^ 64) :
    (n + 1).toNat = n.toNat + 1 := by
  rw [UInt64.toNat_add]
  exact Nat.mod_eq_of_lt (by simpa using room)

omit [Sha256] in
private theorem saturatingSucc_grown {n : UInt64}
    (room : (saturatingSucc n).toNat + 1 < 2 ^ 64) : (saturatingSucc n).toNat = n.toNat + 1 := by
  unfold saturatingSucc at room ⊢
  split_ifs at room ⊢ with small
  · exact succ_toNat small
  · exact absurd room small

omit [Sha256] in
theorem epoch_inject (slot : RunSlot) (input : NamedArtifact) (name : String) :
    ((injectSlot slot input).inputEpochs.lookup name).getD 0 =
      if name = input.name then saturatingSucc ((slot.inputEpochs.lookup name).getD 0)
      else (slot.inputEpochs.lookup name).getD 0 := by
  rw [injectSlot, lookup_insert_of]
  split_ifs with same
  · rw [same, Option.getD_some]
  · rfl

omit [Sha256] in
private theorem earlier_inject {slot : RunSlot} {input : NamedArtifact}
    (room : Unsaturated (injectSlot slot input)) : Earlier slot (injectSlot slot input) := by
  have external : ∀ b : Binding, b.input ≠ "" → generation (injectSlot slot input) b =
      generation slot b + if b.input = input.name then 1 else 0 := by
    intro b named
    have below := room b.input
    rw [generation, generation, bindingEpoch, bindingEpoch, if_pos named, if_pos named]
    rw [epoch_inject] at below ⊢
    split_ifs at below ⊢ with here
    · exact saturatingSucc_grown below
    · rfl
  have internal : ∀ b : Binding, ¬ b.input ≠ "" →
      generation (injectSlot slot input) b = generation slot b := by
    intro b named
    rw [generation, generation, bindingEpoch, bindingEpoch, if_neg named, if_neg named]
    rfl
  refine ⟨rfl, rfl, fun b => ?_, fun b same => ?_⟩
  · by_cases named : b.input ≠ ""
    · rw [external b named]
      exact Nat.le_add_right _ _
    · exact (internal b named).ge
  · by_cases named : b.input ≠ ""
    · have other : b.input ≠ input.name := by
        intro here
        rw [external b named, if_pos here] at same
        exact absurd same (Nat.lt_succ_self _).ne
      rw [resolveBinding, resolveBinding, if_pos named, if_pos named]
      show _ = ((admitInput input slot.run.inputs).find? (·.name == b.input)).bind (·.artifact)
      rw [find_admitInput, if_neg other]
    · rw [resolveBinding, resolveBinding, if_neg named, if_neg named]
      rfl

private theorem earlier_commit {modules : List ModuleSlot} {slot : RunSlot} {c : ClaimedSlot}
    {outputs : List NamedArtifact}
    (room : ((slot.nodeCommits.lookup c.work.nodeId).getD 0).toNat + 1 < 2 ^ 64) :
    Earlier slot ((SlotAct.commit c outputs).apply modules slot) := by
  have terms := apply_terms modules slot (.commit c outputs)
  have inputs : ((SlotAct.commit c outputs).apply modules slot).run.inputs = slot.run.inputs :=
    inputs_apply (by simp)
  have external : ∀ b : Binding, b.input ≠ "" →
      generation ((SlotAct.commit c outputs).apply modules slot) b = generation slot b := by
    intro b named
    rw [generation, generation, bindingEpoch, bindingEpoch, if_pos named, if_pos named,
      SlotAct.apply, settleSlot_inputEpochs]
    rfl
  have internal : ∀ b : Binding, ¬ b.input ≠ "" →
      generation ((SlotAct.commit c outputs).apply modules slot) b =
        generation slot b + if b.fromNode = c.work.nodeId then 1 else 0 := by
    intro b named
    rw [generation, generation, bindingEpoch, bindingEpoch, if_neg named, if_neg named,
      SlotAct.apply, settleSlot_nodeCommits, commitSlot, lookup_insert_of]
    split_ifs with here
    · rw [here, Option.getD_some]
      exact succ_toNat room
    · rfl
  refine ⟨terms.assembly, terms.policy, fun b => ?_, fun b same => ?_⟩
  · by_cases named : b.input ≠ ""
    · exact (external b named).ge
    · rw [internal b named]
      exact Nat.le_add_right _ _
  · by_cases named : b.input ≠ ""
    · rw [resolveBinding, resolveBinding, if_pos named, if_pos named, inputs]
    · have other : b.fromNode ≠ c.work.nodeId := by
        intro here
        rw [internal b named, if_pos here] at same
        exact absurd same (Nat.lt_succ_self _).ne
      rw [resolveBinding, resolveBinding, if_neg named, if_neg named, SlotAct.apply,
        settleSlot_latest, commitSlot, lookup_insert_of, if_neg other]

theorem earlier_apply {modules : List ModuleSlot} {slot : RunSlot} {a : SlotAct}
    (commits : ∀ c outputs, a = .commit c outputs →
      ((slot.nodeCommits.lookup c.work.nodeId).getD 0).toNat + 1 < 2 ^ 64)
    (room : Unsaturated (a.apply modules slot)) : Earlier slot (a.apply modules slot) := by
  by_cases injects : ∃ input, a = .inject input
  · obtain ⟨input, rfl⟩ := injects
    exact earlier_inject room
  by_cases commit : ∃ c outputs, a = .commit c outputs
  · obtain ⟨c, outputs, rfl⟩ := commit
    exact earlier_commit (commits c outputs rfl)
  push Not at injects commit
  exact earlier_of_deliveries (apply_deliveries injects commit)

theorem epochs_apply {modules : List ModuleSlot} {slot : RunSlot} {a : SlotAct}
    (quiet : ∀ input, a ≠ .inject input) :
    (a.apply modules slot).inputEpochs = slot.inputEpochs := by
  cases a with
  | inject input => exact absurd rfl (quiet input)
  | commit c outputs =>
      rw [SlotAct.apply, settleSlot_inputEpochs]
      rfl
  | renew id leaseUntil =>
      simp only [SlotAct.apply, renewClaim]
      split <;> rfl
  | _ => rfl

theorem unsaturated_before {modules : List ModuleSlot} {slot : RunSlot} {a : SlotAct}
    (room : Unsaturated (a.apply modules slot)) : Unsaturated slot := by
  by_cases injects : ∃ input, a = .inject input
  · obtain ⟨input, rfl⟩ := injects
    intro name
    have below := room name
    change (((injectSlot slot input).inputEpochs.lookup name).getD 0).toNat + 1 < 2 ^ 64 at below
    rw [epoch_inject] at below
    split_ifs at below with here
    · rw [saturatingSucc_grown below] at below
      omega
    · exact below
  push Not at injects
  intro name
  rw [← @epochs_apply _ modules slot a injects]
  exact room name

/-- Everything a slot delivers is a content address. -/
def Sized (slot : RunSlot) : Prop :=
  ∀ b r, resolveBinding slot b = some r → (asBytes r.id).length = 71

/-- The bytes a slot's delivery fingerprints hash all lie in a set. -/
def Inside (S : Set Bytes) (slot : RunSlot) : Prop :=
  ∀ node ∈ slot.run.assembly.nodes, ∀ inputs rows, resolveInputs slot node = some inputs →
    deliveryRows slot node inputs = some rows → deliveryBytes rows ∈ S

omit [Sha256] in
theorem rows_shape {slot : RunSlot} {node : AssemblyNode} {inputs : List NamedArtifact}
    {rows : List (String × String × UInt64)} (made : deliveryRows slot node inputs = some rows) :
    rows.map Prod.fst = (bindingsOf slot.run.assembly node.id).map (·.toPort) ∧
      rows.map (·.2.2) = (bindingsOf slot.run.assembly node.id).map (bindingEpoch slot) := by
  refine ⟨mapM_map ?_ made, mapM_map ?_ made⟩
  all_goals
    intro b row entry
    obtain ⟨first, -, carried⟩ := Option.bind_eq_some_iff.mp entry
    obtain ⟨r, -, rfl⟩ := Option.map_eq_some_iff.mp carried
    rfl

omit [Sha256] in
theorem rows_sized {slot : RunSlot} {node : AssemblyNode} {inputs : List NamedArtifact}
    {rows : List (String × String × UInt64)} (sized : Sized slot)
    (resolves : resolveInputs slot node = some inputs)
    (made : deliveryRows slot node inputs = some rows) {row : String × String × UInt64}
    (member : row ∈ rows) : (asBytes row.2.1).length = 71 := by
  obtain ⟨b, -, entry⟩ := (mapM_mem made).2 row member
  obtain ⟨first, found, carried⟩ := Option.bind_eq_some_iff.mp entry
  obtain ⟨r, artifact, rfl⟩ := Option.map_eq_some_iff.mp carried
  obtain ⟨b', -, listed⟩ := (mapM_mem resolves).2 first (List.mem_of_find?_eq_some found)
  obtain ⟨r', delivered, rfl⟩ := Option.map_eq_some_iff.mp listed
  obtain rfl := Option.some.inj artifact
  exact sized b' _ delivered

omit [Sha256] in
theorem deliveryBytes_inj {xs ys : List (String × String × UInt64)}
    (ports : xs.map Prod.fst = ys.map Prod.fst) (hx : ∀ row ∈ xs, (asBytes row.2.1).length = 71)
    (hy : ∀ row ∈ ys, (asBytes row.2.1).length = 71)
    (same : deliveryBytes xs = deliveryBytes ys) : xs = ys := by
  obtain ⟨sorted, inj⟩ := insertionSort_key_inj (fun p q : String => p ≤ q) ports
  have sized : ∀ x ∈ sortByPort xs, ∀ y ∈ sortByPort ys,
      (asBytes x.2.1).length = (asBytes y.2.1).length := by
    intro x hx' y hy'
    rw [hx x ((List.mem_insertionSort _).mp hx'), hy y ((List.mem_insertionSort _).mp hy')]
  refine inj (flatMap_key_inj sorted ?_ ?_ same)
  · intro x hx' y hy' port
    simp [deliveryRowBytes, port, sized x hx' y hy', toBeBytes]
  · intro x hx' y hy' port bytes
    simp only [deliveryRowBytes, port, List.append_assoc, List.append_cancel_left_eq] at bytes
    obtain ⟨ids, tails⟩ := List.append_inj bytes (sized x hx' y hy')
    rw [List.append_cancel_left_eq] at tails
    have epochs := toBeBytes_inj (List.append_inj_left' tails rfl)
    exact Prod.ext port (Prod.ext (asBytes_inj ids) epochs)

/-- Every node of a run fires on every delivery. -/
def FiresAlways (modules : List ModuleSlot) (slot : RunSlot) : Prop :=
  ∀ node ∈ slot.run.assembly.nodes, ∀ cap, capabilityForNode modules node = .ok cap →
    effectiveFiring slot node cap = .always

variable {modules : List ModuleSlot} {S : Set Bytes}

theorem unit_rows {slot : RunSlot} {node : AssemblyNode} {inputs : List NamedArtifact} {key : String}
    (always : FiresAlways modules slot) (member : node ∈ slot.run.assembly.nodes)
    (unit : currentUnit modules slot node = some (inputs, key)) :
    ∃ rows, resolveInputs slot node = some inputs ∧ deliveryRows slot node inputs = some rows ∧
      key = (UnitIdent.always node.id (deliveryBytes rows)).spell := by
  have resolves := currentUnit_resolves unit
  simp only [currentUnit, resolves, Option.bind_some, Option.bind_eq_some_iff,
    Option.map_eq_some_iff, Prod.mk.injEq, true_and] at unit
  obtain ⟨cap, known, made, keyed, rfl⟩ := unit
  have resolved : capabilityForNode modules node = .ok cap := by
    cases result : capabilityForNode modules node with
    | error e => simp [result, Except.toOption] at known
    | ok found => simpa [result, Except.toOption] using known
  rw [always node member cap resolved, workUnitKey, deliveryFingerprint, Option.map_map,
    Option.map_eq_some_iff] at keyed
  obtain ⟨rows, delivered, rfl⟩ := keyed
  exact ⟨rows, resolves, delivered, rfl⟩

theorem generations_of_key {a b : RunSlot} {node : AssemblyNode} {inputs inputs' : List NamedArtifact}
    {key : String} (free : Set.InjOn Sha256.digest S) (insideA : Inside S a) (insideB : Inside S b)
    (sizedA : Sized a) (sizedB : Sized b) (assembly : a.run.assembly = b.run.assembly)
    (alwaysA : FiresAlways modules a) (alwaysB : FiresAlways modules b)
    (member : node ∈ a.run.assembly.nodes) (unit : currentUnit modules a node = some (inputs, key))
    (unit' : currentUnit modules b node = some (inputs', key)) {x : Binding}
    (bound : x ∈ bindingsOf a.run.assembly node.id) : generation a x = generation b x := by
  have member' : node ∈ b.run.assembly.nodes := assembly ▸ member
  obtain ⟨rows, resolves, delivered, rfl⟩ := unit_rows alwaysA member unit
  obtain ⟨rows', resolves', delivered', same⟩ := unit_rows alwaysB member' unit'
  obtain ⟨ports, epochs⟩ := rows_shape delivered
  obtain ⟨ports', epochs'⟩ := rows_shape delivered'
  have bytes := free (insideA node member _ _ resolves delivered)
    (insideB node member' _ _ resolves' delivered') (UnitIdent.spell_inj same).2
  have equal := deliveryBytes_inj (by rw [ports, ports', assembly])
    (fun row h => rows_sized sizedA resolves delivered h)
    (fun row h => rows_sized sizedB resolves' delivered' h) bytes
  rw [equal, epochs', ← assembly] at epochs
  rw [generation, generation, List.map_inj_left.mp epochs x bound]

/-- A run of a validated assembly that delivers content addresses, keeps every latest derivation
supplied and answers with the terminal node's. -/
structure Supplying (modules : List ModuleSlot) (runId : String) (start : RunSlot) (f : Flow) :
    Prop where
  shape : SlotShape runId f.slot
  terms : SameTerms start f.slot
  valid : ∃ artifacts inputs, Validated modules artifacts f.slot.run.assembly inputs
  sized : Sized f.slot
  inputs : ∀ b ∈ f.slot.run.assembly.bindings, b.input ≠ "" →
    ∃ r, resolveBinding f.slot b = some r
  latest : ∀ node d, f.slot.latest.lookup node = some d → d ∈ f.derived ∧ d.nodeId = node ∧
    ∀ n ∈ f.slot.run.assembly.nodes, n.id = node → Supplied modules n d
  kept : ∀ d ∈ f.derived, ∃ e, f.slot.latest.lookup d.nodeId = some e
  answer : ∀ terminal, f.slot.run.assembly.terminal = some terminal → ∀ d,
    f.slot.latest.lookup terminal.node = some d → f.slot.run.answer = outputOf d.outputs terminal.port
  commits : ∀ node, ((f.slot.nodeCommits.lookup node).getD 0).toNat ≤ f.slot.run.steps.toNat

variable {runId : String} {start : RunSlot} {f : Flow} {a : SlotAct}

private theorem sized_apply (sized : Sized f.slot) (guard : (flowMachine modules runId).enabled f a) :
    Sized (a.apply modules f.slot) := by
  intro b r delivered
  obtain ⟨-, artifacts, addressed, enabled⟩ := guard
  rcases resolveBinding_apply delivered with old | ⟨input, rfl, -, carried⟩ |
    ⟨c, outputs, o, rfl, -, -, listed, -, carried⟩
  · exact sized b r old
  · obtain ⟨⟨r', carried', stored⟩, -⟩ := enabled
    obtain rfl := Option.some.inj (carried.symm.trans carried')
    exact addressed r.id stored
  · obtain ⟨-, -, cap, -, checked⟩ := enabled
    simp only [validateOutputs, bind_eq_ok] at checked
    obtain ⟨-, -, accepted⟩ := checked
    obtain ⟨-, r', artifact, -, carried', stored, -⟩ :=
      validateOutput_ok (forM_eq_ok.mp accepted o listed)
    obtain rfl := Option.some.inj (carried.symm.trans carried')
    exact addressed r.id (mem_of_lookup stored)

private theorem inputs_stay (guard : (flowMachine modules runId).enabled f a) {b : Binding}
    (external : b.input ≠ "") (there : ∃ r, resolveBinding f.slot b = some r) :
    ∃ r, resolveBinding (a.apply modules f.slot) b = some r := by
  by_cases injects : ∃ input, a = .inject input
  · obtain ⟨input, rfl⟩ := injects
    obtain ⟨-, artifacts, -, ⟨r, carried, -⟩, -⟩ := guard
    rw [resolveBinding, if_pos external] at there ⊢
    show ∃ r, ((admitInput input f.slot.run.inputs).find? (·.name == b.input)).bind (·.artifact) =
      some r
    rw [find_admitInput]
    split_ifs
    · exact ⟨r, carried⟩
    · exact there
  · push Not at injects
    rw [resolveBinding, if_pos external] at there ⊢
    rwa [inputs_apply injects]

theorem commit_room (supplying : Supplying modules runId start f)
    (guard : (flowMachine modules runId).enabled f a) (c : ClaimedSlot)
    (outputs : List NamedArtifact) (commits : a = .commit c outputs) :
    ((f.slot.nodeCommits.lookup c.work.nodeId).getD 0).toNat + 1 < 2 ^ 64 := by
  subst commits
  obtain ⟨-, artifacts, -, -, within, -⟩ := guard
  have below := UInt64.lt_iff_toNat_lt.mp within
  have top := f.slot.run.maxSteps.toNat_lt
  have few := supplying.commits c.work.nodeId
  omega

private theorem commit_supplied (supplying : Supplying modules runId start f) {c : ClaimedSlot}
    {outputs : List NamedArtifact}
    (guard : (flowMachine modules runId).enabled f (.commit c outputs))
    (fruitful : Fruitful modules f.slot.maxAttempts (.commit c outputs)) {n : AssemblyNode}
    (member : n ∈ f.slot.run.assembly.nodes) (id : n.id = c.work.nodeId) :
    Supplied modules n (derivationOf c.work outputs) := by
  obtain ⟨-, artifacts, -, held, -, cap, resolved, checked⟩ := guard
  obtain rfl : n = nodeOfWork c.work := List.inj_on_of_nodup_map supplying.shape.ids member
    (supplying.shape.claims _ c held).node id
  intro cap' resolved' p listed
  obtain rfl : cap = cap' := Except.ok.inj (resolved.symm.trans resolved')
  exact outputOf_supplied checked (fruitful cap resolved p listed)

private theorem supplying_commit (supplying : Supplying modules runId start f) {c : ClaimedSlot}
    {outputs : List NamedArtifact}
    (guard : (flowMachine modules runId).enabled f (.commit c outputs))
    (fruitful : Fruitful modules f.slot.maxAttempts (.commit c outputs)) :
    let g := (flowMachine modules runId).apply f (.commit c outputs)
    (∀ node d, g.slot.latest.lookup node = some d → d ∈ g.derived ∧ d.nodeId = node ∧
      ∀ n ∈ g.slot.run.assembly.nodes, n.id = node → Supplied modules n d) ∧
    (∀ d ∈ g.derived, ∃ e, g.slot.latest.lookup d.nodeId = some e) ∧
    (∀ terminal, g.slot.run.assembly.terminal = some terminal → ∀ d,
      g.slot.latest.lookup terminal.node = some d →
        g.slot.run.answer = outputOf d.outputs terminal.port) ∧
    ∀ node, ((g.slot.nodeCommits.lookup node).getD 0).toNat ≤ g.slot.run.steps.toNat := by
  intro g
  have assembly : g.slot.run.assembly = f.slot.run.assembly :=
    (apply_terms modules f.slot (.commit c outputs)).assembly
  have supplied := fun {n} => commit_supplied supplying guard fruitful (n := n)
  have latest : ∀ node, g.slot.latest.lookup node = if node = c.work.nodeId then
      some (derivationOf c.work outputs) else f.slot.latest.lookup node := by
    intro node
    show ((SlotAct.commit c outputs).apply modules f.slot).latest.lookup node = _
    rw [SlotAct.apply, settleSlot_latest, commitSlot, lookup_insert_of]
  refine ⟨fun node d found => ?_, fun d member => ?_, fun terminal declared d found => ?_,
    fun node => ?_⟩
  · rw [latest] at found
    rw [assembly]
    split_ifs at found with here
    · obtain rfl := Option.some.inj found
      subst here
      exact ⟨List.mem_append_right _ List.mem_cons_self, rfl, fun n member id => supplied member id⟩
    · obtain ⟨old, id, given⟩ := supplying.latest node d found
      exact ⟨List.mem_append_left _ old, id, given⟩
  · rw [latest]
    split_ifs with here
    · exact ⟨_, rfl⟩
    · rcases List.mem_append.mp member with old | new
      · exact supplying.kept d old
      · obtain rfl := List.mem_singleton.mp new
        exact absurd rfl here
  · have given : g.slot.run.answer = _ := (commit_run modules f.slot c outputs).1
    rw [assembly] at declared
    rw [latest] at found
    rw [given, terminalAnswer_eq _ declared]
    split_ifs at found with here
    · obtain rfl := Option.some.inj found
      obtain ⟨artifacts, inputs, valid⟩ := supplying.valid
      obtain ⟨terminal', node, cap, p, declared', known, resolved, output, -⟩ := valid.terminal
      obtain rfl := Option.some.inj (declared.symm.trans declared')
      obtain ⟨member, id⟩ := nodeById_eq_some known
      obtain ⟨listed, name⟩ := port_spec output
      obtain ⟨r, carried⟩ := supplied member (id.trans here) cap resolved p listed
      rw [name] at carried
      have last : (derivationOf c.work outputs).nodeId = terminal.node := here.symm
      rw [if_pos last, carried]
      rfl
    · have other : (derivationOf c.work outputs).nodeId ≠ terminal.node := Ne.symm here
      rw [if_neg other]
      exact supplying.answer terminal declared d found
  · have room := commit_room supplying guard c outputs rfl
    have steps : g.slot.run.steps.toNat = f.slot.run.steps.toNat + 1 := by
      obtain ⟨-, artifacts, -, -, within, -⟩ := guard
      exact steps_commit c outputs within
    have commits : ∀ node, g.slot.nodeCommits.lookup node = if node = c.work.nodeId then
        some ((f.slot.nodeCommits.lookup c.work.nodeId).getD 0 + 1)
        else f.slot.nodeCommits.lookup node := by
      intro node
      show ((SlotAct.commit c outputs).apply modules f.slot).nodeCommits.lookup node = _
      rw [SlotAct.apply, settleSlot_nodeCommits, commitSlot, lookup_insert_of]
    rw [commits, steps]
    split_ifs
    · rw [Option.getD_some, succ_toNat room]
      exact Nat.succ_le_succ (supplying.commits _)
    · exact (supplying.commits node).trans (Nat.le_succ _)

theorem supplying_apply (supplying : Supplying modules runId start f)
    (guard : (flowMachine modules runId).enabled f a)
    (fruitful : Fruitful modules f.slot.maxAttempts a) :
    Supplying modules runId start ((flowMachine modules runId).apply f a) := by
  have terms := apply_terms modules f.slot a
  have valid : ∃ artifacts inputs,
      Validated modules artifacts (a.apply modules f.slot).run.assembly inputs := by
    rw [terms.assembly]
    exact supplying.valid
  have shape : SlotShape runId (a.apply modules f.slot) := by
    obtain ⟨-, artifacts, -, enabled⟩ := guard
    exact shape_apply enabled supplying.shape
  have inputs : ∀ b ∈ (a.apply modules f.slot).run.assembly.bindings, b.input ≠ "" →
      ∃ r, resolveBinding (a.apply modules f.slot) b = some r := by
    intro b member external
    rw [terms.assembly] at member
    exact inputs_stay guard external (supplying.inputs b member external)
  have sized := sized_apply supplying.sized guard
  by_cases commits : ∃ c outputs, a = .commit c outputs
  · obtain ⟨c, outputs, rfl⟩ := commits
    obtain ⟨latest, kept, answer, counts⟩ := supplying_commit supplying guard fruitful
    exact ⟨shape, supplying.terms.trans terms, valid, sized, inputs, latest, kept, answer, counts⟩
  · push Not at commits
    obtain ⟨steps, answer, latest, counts⟩ := apply_books modules f.slot commits
    have derived : f.derived ++ a.derivation = f.derived := by
      rw [derivation_eq_nil commits, List.append_nil]
    refine ⟨shape, supplying.terms.trans terms, valid, sized, inputs, ?_, ?_, ?_, ?_⟩
    · show ∀ node d, (a.apply modules f.slot).latest.lookup node = some d →
        d ∈ f.derived ++ a.derivation ∧ d.nodeId = node ∧
          ∀ n ∈ (a.apply modules f.slot).run.assembly.nodes, n.id = node → Supplied modules n d
      rw [latest, derived, terms.assembly]
      exact supplying.latest
    · show ∀ d ∈ f.derived ++ a.derivation, ∃ e,
        (a.apply modules f.slot).latest.lookup d.nodeId = some e
      rw [latest, derived]
      exact supplying.kept
    · show ∀ terminal, (a.apply modules f.slot).run.assembly.terminal = some terminal → ∀ d,
        (a.apply modules f.slot).latest.lookup terminal.node = some d →
          (a.apply modules f.slot).run.answer = outputOf d.outputs terminal.port
      rw [latest, answer, terms.assembly]
      exact supplying.answer
    · show ∀ node, (((a.apply modules f.slot).nodeCommits.lookup node).getD 0).toNat ≤
        (a.apply modules f.slot).run.steps.toNat
      rw [counts, steps]
      exact supplying.commits

/-- A work item with the slot it was claimed in. -/
abbrev Issue := WorkItem × RunSlot

/-- A work item was its node's unit in an earlier slot. -/
structure Issued (S : Set Bytes) (modules : List ModuleSlot) (runId : String) (now : RunSlot)
    (e : Issue) : Prop where
  node : nodeOfWork e.1 ∈ now.run.assembly.nodes
  id : e.1.id = workId runId e.1.nodeId e.1.unitKey
  unit : currentUnit modules e.2 (nodeOfWork e.1) = some (e.1.inputs, e.1.unitKey)
  earlier : Earlier e.2 now
  inside : Inside S e.2
  sized : Sized e.2

/-- The issues of a run, oldest first: every claim and every derivation is of one, and a unit is
done by a derivation. -/
structure Recorded (S : Set Bytes) (modules : List ModuleSlot) (runId : String) (f : Flow)
    (log : List Issue) : Prop where
  issued : f.issued = log.map Prod.fst
  issues : ∀ e ∈ log, Issued S modules runId f.slot e
  ordered : log.Pairwise fun x y => Earlier x.2 y.2
  claims : ∀ id c, f.slot.claimed.lookup id = some c →
    ∃ e ∈ log, ledgerWorkItem e.1 = ledgerWorkItem c.work
  derived : ∀ d ∈ f.derived, ∃ e ∈ log, e.1.id = d.workId ∧ e.1.nodeId = d.nodeId ∧
    e.1.inputs = d.inputs
  done : ∀ key ∈ f.slot.doneUnits, ∃ d ∈ f.derived, ∃ e ∈ log, e.1.unitKey = key ∧
    e.1.id = d.workId ∧ e.1.nodeId = d.nodeId

omit [Sha256] in
private theorem sameItem {w v : WorkItem} (same : ledgerWorkItem w = ledgerWorkItem v) :
    w.id = v.id ∧ w.nodeId = v.nodeId ∧ w.inputs = v.inputs ∧ w.unitKey = v.unitKey :=
  ⟨(congrArg WorkItem.id same :), (congrArg WorkItem.nodeId same :),
    (congrArg WorkItem.inputs same :), (congrArg WorkItem.unitKey same :)⟩

theorem Issued.later {now after : RunSlot} {e : Issue} (issued : Issued S modules runId now e)
    (earlier : Earlier now after) : Issued S modules runId after e :=
  ⟨by rw [earlier.assembly]; exact issued.node, issued.id, issued.unit,
    issued.earlier.trans earlier, issued.inside, issued.sized⟩

private theorem recorded_claim {log : List Issue} {work : WorkItem}
    (recorded : Recorded S modules runId f log) (sized : Sized f.slot) (inside : Inside S f.slot)
    (guard : (flowMachine modules runId).enabled f (.claim work)) :
    Recorded S modules runId ((flowMachine modules runId).apply f (.claim work))
      (log ++ [(work, f.slot)]) := by
  obtain ⟨-, artifacts, -, -, env, node, member, inputs, unitKey, ready, rfl⟩ := guard
  have earlier : Earlier f.slot
      (claimSlot f.slot (claimWork env runId f.slot (node, inputs, unitKey))) :=
    earlier_of_deliveries ⟨rfl, rfl, rfl, rfl, rfl, rfl⟩
  refine ⟨?_, ?_, ?_, ?_, ?_, ?_⟩
  · show f.issued ++ [_] = _
    rw [recorded.issued, List.map_append]
    rfl
  · intro e listed
    rcases List.mem_append.mp listed with old | new
    · exact (recorded.issues e old).later earlier
    · obtain rfl := List.mem_singleton.mp new
      exact ⟨member, rfl, (readyUnit_eq_some.mp ready).1, earlier, inside, sized⟩
  · refine List.pairwise_append.mpr ⟨recorded.ordered, List.pairwise_singleton _ _, ?_⟩
    intro e old x new
    obtain rfl := List.mem_singleton.mp new
    exact (recorded.issues e old).earlier
  · intro id c held
    rcases @claimed_apply _ modules _ _ _ _ held with old | ⟨work, same, -, rfl⟩ |
      ⟨leaseUntil, old, renewed, -⟩
    · obtain ⟨e, listed, same⟩ := recorded.claims id c old
      exact ⟨e, List.mem_append_left _ listed, same⟩
    · cases same
      exact ⟨_, List.mem_append_right _ List.mem_cons_self, rfl⟩
    · cases renewed
  · intro d made
    have old : d ∈ f.derived := by simpa [flowMachine, SlotAct.derivation] using made
    obtain ⟨e, listed, same⟩ := recorded.derived d old
    exact ⟨e, List.mem_append_left _ listed, same⟩
  · intro key spent
    obtain ⟨d, made, e, listed, same⟩ := recorded.done key spent
    exact ⟨d, List.mem_append_left _ made, e, List.mem_append_left _ listed, same⟩

theorem recorded_apply {log : List Issue} (recorded : Recorded S modules runId f log)
    (supplying : Supplying modules runId start f) (guard : (flowMachine modules runId).enabled f a)
    (fruitful : Fruitful modules f.slot.maxAttempts a)
    (earlier : Earlier f.slot (a.apply modules f.slot))
    (inside : ∀ work, a = .claim work → Inside S f.slot) :
    ∃ log', Recorded S modules runId ((flowMachine modules runId).apply f a) log' := by
  by_cases claims : ∃ work, a = .claim work
  · obtain ⟨work, rfl⟩ := claims
    exact ⟨_, recorded_claim recorded supplying.sized (inside work rfl) guard⟩
  push Not at claims
  have silent : f.issued ++ a.handsOut.toList = f.issued := by
    cases a with
    | claim work => exact absurd rfl (claims work)
    | _ => exact List.append_nil _
  have held : ∀ id c, (a.apply modules f.slot).claimed.lookup id = some c →
      ∃ e ∈ log, ledgerWorkItem e.1 = ledgerWorkItem c.work := by
    intro id c held
    rcases claimed_apply held with old | ⟨work, same, -⟩ | ⟨leaseUntil, old, -, there, rfl⟩
    · exact recorded.claims id c old
    · exact absurd same (claims work)
    · exact recorded.claims id old there
  refine ⟨log, silent.trans recorded.issued, fun e listed => (recorded.issues e listed).later earlier,
    recorded.ordered, held, ?_, ?_⟩
  · intro d made
    rcases List.mem_append.mp made with old | new
    · exact recorded.derived d old
    · cases a with
      | commit c outputs =>
          obtain rfl := List.mem_singleton.mp new
          obtain ⟨-, artifacts, -, there, -⟩ := guard
          obtain ⟨e, listed, same⟩ := recorded.claims _ c there
          obtain ⟨id, node, inputs, -⟩ := sameItem same
          exact ⟨e, listed, id, node, inputs⟩
      | _ => cases new
  · intro key spent
    by_cases commits : ∃ c outputs, a = .commit c outputs
    · obtain ⟨c, outputs, rfl⟩ := commits
      obtain ⟨-, artifacts, -, there, -⟩ := guard
      change key ∈ ((SlotAct.commit c outputs).apply modules f.slot).doneUnits at spent
      rw [SlotAct.apply, settleSlot_doneUnits] at spent
      rcases Finset.mem_insert.mp spent with rfl | before
      · obtain ⟨e, listed, same⟩ := recorded.claims _ c there
        obtain ⟨id, node, -, unitKey⟩ := sameItem same
        exact ⟨_, List.mem_append_right _ List.mem_cons_self, e, listed,
          unitKey.trans (supplying.shape.claims _ c there).unitKey, id, node⟩
      · obtain ⟨d, made, rest⟩ := recorded.done key before
        exact ⟨d, List.mem_append_left _ made, rest⟩
    · push Not at commits
      change key ∈ (a.apply modules f.slot).doneUnits at spent
      rw [doneUnits_fruitful fruitful commits] at spent
      obtain ⟨d, made, rest⟩ := recorded.done key spent
      exact ⟨d, List.mem_append_left _ made, rest⟩

/-- No derivation of the node is of work handed out after a derivation's own. -/
def CommittedLast (issued : List WorkItem) (ds : List Derivation) (d : Derivation) : Prop :=
  ∃ older w newer, issued = older ++ w :: newer ∧ w.id = d.workId ∧
    ∀ later ∈ newer, ∀ e ∈ ds, e.nodeId = d.nodeId → e.workId ≠ later.id

omit [Sha256] in
theorem FiresAlways.congr {before after : RunSlot} (always : FiresAlways modules before)
    (assembly : after.run.assembly = before.run.assembly)
    (policy : after.run.policy = before.run.policy) : FiresAlways modules after := by
  intro node member cap resolved
  rw [effectiveFiring_congr policy]
  exact always node (assembly ▸ member) cap resolved

theorem Issued.always {now : RunSlot} {e : Issue} (issued : Issued S modules runId now e)
    (always : FiresAlways modules now) : FiresAlways modules e.2 :=
  always.congr issued.earlier.assembly.symm issued.earlier.policy.symm

private theorem key_of_id {now : RunSlot} {x y : Issue} (always : FiresAlways modules now)
    (issuedX : Issued S modules runId now x) (issuedY : Issued S modules runId now y)
    (same : x.1.id = y.1.id) : x.1.unitKey = y.1.unitKey := by
  obtain ⟨rows, -, -, keyX⟩ := unit_rows (issuedX.always always)
    (issuedX.earlier.assembly ▸ issuedX.node) issuedX.unit
  obtain ⟨rows', -, -, keyY⟩ := unit_rows (issuedY.always always)
    (issuedY.earlier.assembly ▸ issuedY.node) issuedY.unit
  rw [issuedX.id, issuedY.id, keyX, keyY] at same
  have idX := workId_spell runId (.always (nodeOfWork x.1).id (deliveryBytes rows))
  have idY := workId_spell runId (.always (nodeOfWork y.1).id (deliveryBytes rows'))
  rw [keyX, keyY]
  exact (String.append_right_inj _).mp (idX.symm.trans (same.trans idY))

private theorem generations_of_id {now : RunSlot} {x y : Issue} (always : FiresAlways modules now)
    (ids : (now.run.assembly.nodes.map (·.id)).Nodup) (free : Set.InjOn Sha256.digest S)
    (issuedX : Issued S modules runId now x) (issuedY : Issued S modules runId now y)
    (same : x.1.id = y.1.id) :
    nodeOfWork x.1 = nodeOfWork y.1 ∧ ∀ b ∈ bindingsOf now.run.assembly x.1.nodeId,
      generation x.2 b = generation y.2 b := by
  have key := key_of_id always issuedX issuedY same
  have unitY := issuedY.unit
  rw [← key] at unitY
  have node : nodeOfWork x.1 = nodeOfWork y.1 := List.inj_on_of_nodup_map ids issuedX.node
    issuedY.node (currentUnit_node issuedX.unit unitY)
  rw [← node] at unitY
  refine ⟨node, fun b bound => ?_⟩
  have assembly := issuedX.earlier.assembly
  exact generations_of_key free issuedX.inside issuedY.inside issuedX.sized issuedY.sized
    (assembly.symm.trans issuedY.earlier.assembly) (issuedX.always always) (issuedY.always always)
    (assembly ▸ issuedX.node) issuedX.unit unitY (assembly ▸ bound)

theorem quiet_unit (supplying : Supplying modules runId start f)
    (committed : ∀ node ∈ f.slot.run.assembly.nodes, ∃ d ∈ f.derived, d.nodeId = node.id)
    {node : AssemblyNode} (member : node ∈ f.slot.run.assembly.nodes) :
    ∃ unit, currentUnit modules f.slot node = some unit := by
  obtain ⟨artifacts, inputs, valid⟩ := supplying.valid
  obtain ⟨cap, resolved, -⟩ := valid.typed node member
  refine unit_of_deliveries resolved fun b bound => ?_
  have listed := List.mem_of_mem_filter bound
  by_cases external : b.input = ""
  · refine upstream_delivers valid listed external fun source there id => ?_
    obtain ⟨d, made, same⟩ := committed source there
    obtain ⟨e, latest⟩ := supplying.kept d made
    rw [same] at latest
    exact ⟨e, latest, (supplying.latest source.id e latest).2.2 source there rfl⟩
  · exact supplying.inputs b listed external

theorem quiet_settled {log : List Issue} (always : FiresAlways modules f.slot)
    (free : Set.InjOn Sha256.digest S) (supplying : Supplying modules runId start f)
    (recorded : Recorded S modules runId f log) (inside : Inside S f.slot)
    (unclaimed : size f.slot.claimed = 0)
    (unready : ∀ node ∈ f.slot.run.assembly.nodes, readyUnit modules f.slot node = none)
    (committed : ∀ node ∈ f.slot.run.assembly.nodes, ∃ d ∈ f.derived, d.nodeId = node.id)
    {node : AssemblyNode} (member : node ∈ f.slot.run.assembly.nodes) {d : Derivation}
    (latest : f.slot.latest.lookup node.id = some d)
    (last : CommittedLast f.issued f.derived d) : resolveInputs f.slot node = some d.inputs := by
  have ids := supplying.shape.ids
  obtain ⟨⟨inputs, key⟩, unit⟩ := quiet_unit supplying committed member
  have spent : key ∈ f.slot.doneUnits := by
    by_contra pending
    have free : unitIsClaimed f.slot key = false := by
      rw [unitIsClaimed_eq_false]
      intro id c held
      rw [size_eq_zero.mp unclaimed id] at held
      cases held
    have ready := readyUnit_eq_some.mpr ⟨unit, pending, free⟩
    rw [unready node member] at ready
    cases ready
  -- the current unit is done by `done`, which was issued as `x`
  obtain ⟨done, made, x, listedX, keyX, idX, nodeX⟩ := recorded.done key spent
  have issuedX := recorded.issues x listedX
  have unitX := issuedX.unit
  rw [keyX] at unitX
  obtain rfl : nodeOfWork x.1 = node := List.inj_on_of_nodup_map ids issuedX.node member
    (currentUnit_node unitX unit)
  have current : ∀ b ∈ bindingsOf f.slot.run.assembly x.1.nodeId,
      generation x.2 b = generation f.slot b := by
    intro b bound
    have assembly := issuedX.earlier.assembly
    exact generations_of_key free issuedX.inside inside issuedX.sized supplying.sized assembly.symm
      (issuedX.always always) always (assembly ▸ issuedX.node) unitX unit (assembly ▸ bound)
  -- the latest derivation was issued as `y`, and no later than `w`, which `x` does not follow
  obtain ⟨madeD, nodeD, -⟩ := supplying.latest _ d latest
  change d.nodeId = x.1.nodeId at nodeD
  obtain ⟨y, listedY, idY, nodeY, inputsY⟩ := recorded.derived d madeD
  have issuedY := recorded.issues y listedY
  obtain ⟨older, w, newer, split, idW, after⟩ := last
  rw [recorded.issued] at split
  obtain ⟨front, back, rfl, rfl, tail⟩ := List.map_eq_append_iff.mp split
  obtain ⟨z, rest, rfl, rfl, rfl⟩ := List.map_eq_cons_iff.mp tail
  have listedZ : z ∈ front ++ z :: rest := by simp
  have issuedZ := recorded.issues z listedZ
  have ordered := recorded.ordered
  have xz : Earlier x.2 z.2 := by
    rcases List.mem_append.mp listedX with before | later
    · exact (List.pairwise_append.mp ordered).2.2 x before z List.mem_cons_self
    · rcases List.mem_cons.mp later with rfl | newer
      · exact .refl _
      · exact absurd idX.symm
          (after x.1 (List.mem_map_of_mem newer) done made (nodeX.symm.trans nodeD.symm))
  obtain ⟨nodes, generations⟩ :=
    generations_of_id always ids free issuedY issuedZ (idY.trans idW.symm)
  have same : ∀ b ∈ bindingsOf f.slot.run.assembly x.1.nodeId,
      resolveBinding y.2 b = resolveBinding f.slot b := by
    intro b bound
    refine issuedY.earlier.same b ?_
    have bound' : b ∈ bindingsOf f.slot.run.assembly y.1.nodeId := by rwa [nodeY, nodeD]
    have low := xz.grown b
    have high := issuedZ.earlier.grown b
    rw [generations b bound']
    rw [current b bound] at low
    exact le_antisymm high low
  have resolves := currentUnit_resolves issuedY.unit
  rw [inputsY] at resolves
  rw [← resolves]
  unfold resolveInputs
  rw [← issuedY.earlier.assembly]
  show (bindingsOf f.slot.run.assembly x.1.nodeId).mapM _ =
    (bindingsOf f.slot.run.assembly y.1.nodeId).mapM _
  rw [nodeY, nodeD]
  refine mapM_congr fun b bound => ?_
  rw [same b bound]

omit [Sha256] in
theorem Inside.congr {slot slot' : RunSlot} (inside : Inside S slot)
    (same : SameDeliveries slot' slot) : Inside S slot' := by
  intro node member inputs rows resolves made
  rw [resolveInputs_congr same] at resolves
  rw [deliveryRows_congr same] at made
  exact inside node (same.assembly ▸ member) inputs rows resolves made

theorem supplying_fresh {artifacts : KeyMap String Artifact} {req : RunRequest} {assembly : Assembly}
    {maxSteps : UInt64} (addressed : Addressed artifacts)
    (valid : Validated modules artifacts assembly req.inputs) :
    Supplying modules req.id (freshSlot req assembly maxSteps)
      { slot := freshSlot req assembly maxSteps } := by
  refine ⟨freshSlot_shape valid.ids, .refl _, ⟨artifacts, req.inputs, valid⟩, ?_,
    (smooth_fresh valid).inputs, ?_, ?_, ?_, ?_⟩
  · intro b r delivered
    by_cases external : b.input ≠ ""
    · rw [resolveBinding, if_pos external] at delivered
      obtain ⟨input, found, carried⟩ := Option.bind_eq_some_iff.mp delivered
      obtain ⟨-, r', carried', stored⟩ := valid.stored input (List.mem_of_find?_eq_some found)
      obtain rfl := Option.some.inj (carried.symm.trans carried')
      exact addressed r.id stored
    · rw [resolveBinding, if_neg external] at delivered
      simp [freshSlot] at delivered
  · intro node d found
    simp [freshSlot] at found
  · intro d member
    cases member
  · intro terminal _ d found
    simp [freshSlot] at found
  · intro node
    simp [freshSlot]

variable [Prost]

/-- The bytes that the delivery fingerprints of a run hash, in any state it goes through. -/
def fingerprinted (policy : ArtifactStorePolicy) (runId : String) (s : State) (calls : List Call) :
    Set Bytes :=
  {bytes | ∃ before after slot node inputs rows, calls = before ++ after ∧
    (exec policy s before).runs.lookup runId = some slot ∧ node ∈ slot.run.assembly.nodes ∧
    resolveInputs slot node = some inputs ∧ deliveryRows slot node inputs = some rows ∧
    bytes = deliveryBytes rows}

theorem inside_fingerprinted (policy : ArtifactStorePolicy) {s : State} {calls before after : List Call}
    {slot : RunSlot} (split : calls = before ++ after)
    (found : (exec policy s before).runs.lookup runId = some slot) :
    Inside (fingerprinted policy runId s calls) slot :=
  fun node member inputs rows resolves made =>
    ⟨before, after, slot, node, inputs, rows, split, found, member, resolves, made, rfl⟩

omit [Prost] in
private theorem claiming_of_allowed {s : State} {call : Call}
    (allowed : Allowed s call (.acted runId a)) :
    ((∃ work, a = .claim work) → ∃ req, call.op = .claimReady req) ∧
      ((∃ req, call.op = .claimReady req) →
        (∀ input, a ≠ .inject input) ∧ ∀ c outputs, a ≠ .commit c outputs) := by
  rcases allowed_acted allowed with ⟨req, input, op, -, -, rfl⟩ | ⟨ref, op, -, rfl⟩ | ⟨-, acts⟩
  · simp [op]
  · simp [op]
  rcases actAllowed_cases acts with ⟨e, -, rfl⟩ | ⟨req, op, ⟨work, rfl⟩ | rfl⟩ |
    ⟨req, id, leaseUntil, op, -, rfl⟩ | ⟨req, op, rfl | ⟨now, c, reason, -, -, rfl⟩⟩ |
    ⟨submitted, now, c, op, -, -, rfl⟩ <;> simp [*, expireAct]

/-- What a run of ALWAYS nodes keeps as long as its generations have room. -/
def Streams (S : Set Bytes) (modules : List ModuleSlot) (runId : String) (start : RunSlot)
    (f : Flow) : Prop :=
  Supplying modules runId start f ∧
    (Unsaturated f.slot → ∃ log, Recorded S modules runId f log)

omit [Prost] in
theorem streams_apply (streams : Streams S modules runId start f)
    (guard : (flowMachine modules runId).enabled f a)
    (fruitful : Fruitful modules f.slot.maxAttempts a)
    (inside : ∀ work, a = .claim work → Inside S f.slot) :
    Streams S modules runId start ((flowMachine modules runId).apply f a) := by
  obtain ⟨supplying, history⟩ := streams
  refine ⟨supplying_apply supplying guard fruitful, fun room => ?_⟩
  obtain ⟨log, recorded⟩ := history (unsaturated_before room)
  exact recorded_apply recorded supplying guard fruitful
    (earlier_apply (commit_room supplying guard) room) inside

omit [Prost] in
theorem streams_path {s : State} {call : Call} {g : Flow} {acts : List SlotAct}
    (streams : Streams S modules runId start f) (terms : SameTerms start f.slot)
    (inside : Inside S f.slot) (path : Path (flowMachine modules runId) f acts g)
    (fruitful : ∀ act ∈ acts, Fruitful modules start.maxAttempts act)
    (allowed : ∀ act ∈ acts, Allowed s call (.acted runId act)) :
    Streams S modules runId start g := by
  have both := path.invariant
    (P := fun g => Streams S modules runId start g ∧ SameTerms start g.slot ∧
      ((∃ req, call.op = .claimReady req) → Inside S g.slot))
    (fun act => Fruitful modules start.maxAttempts act ∧ Allowed s call (.acted runId act)) ?_
    (fun act member => ⟨fruitful act member, allowed act member⟩) ⟨streams, terms, fun _ => inside⟩
  · exact both.1
  · rintro g act ⟨fruitful, allowed⟩ guard ⟨streams, terms, inside⟩
    obtain ⟨claiming, still⟩ := claiming_of_allowed allowed
    refine ⟨streams_apply streams guard (by rwa [terms.maxAttempts]) ?_,
      terms.trans (apply_terms modules g.slot act), fun claims => ?_⟩
    · exact fun work same => inside (claiming ⟨work, same⟩)
    · exact (inside claims).congr (apply_deliveries (still claims).1 (still claims).2)

/-- A run whose nodes all fire ALWAYS, whatever its closure and whatever is injected into it: where
nothing is READY or CLAIMED and every node has committed, a node none of whose later-claimed units
committed before its latest derivation has the inputs it resolves to now, and the answer is the
terminal output of the terminal node's latest derivation. -/
theorem quiet_runs_settle (policy : ArtifactStorePolicy) {s : State} {call : Call} {req : RunRequest}
    {slot : RunSlot} (reached : Reachable policy s) (started : Started policy s call req slot)
    (always : FiresAlways s.modules slot) {calls : List Call}
    (fruitful : ∀ before next after, calls = before ++ next :: after →
      FruitfulCall (exec policy (step policy s call).1 before) req.id slot next)
    (free : Set.InjOn Sha256.digest (fingerprinted policy req.id (step policy s call).1 calls)) :
    let t := exec policy (step policy s call).1 calls
    ∀ now, t.runs.lookup req.id = some now → Unsaturated now → size now.claimed = 0 →
      (∀ node ∈ now.run.assembly.nodes, readyUnit t.modules now node = none) →
      (∀ node ∈ now.run.assembly.nodes, ∃ d ∈ t.derivations, d.runId = req.id ∧
        d.nodeId = node.id) →
      (∀ node ∈ now.run.assembly.nodes, ∃ d, now.latest.lookup node.id = some d ∧
        (CommittedLast (issuedOf policy req.id (step policy s call).1 calls)
          (t.derivations.filter (·.runId == req.id)) d → resolveInputs now node = some d.inputs)) ∧
      ∃ terminal d r, now.run.assembly.terminal = some terminal ∧
        now.latest.lookup terminal.node = some d ∧ outputOf d.outputs terminal.port = some r ∧
        now.run.answer = some r := by
  intro t now found room unclaimed unready committed
  obtain ⟨given, assembly, -, -, accepted, rfl⟩ := started.fresh
  have fresh : Streams (fingerprinted policy req.id (step policy s call).1 calls) s.modules req.id
      (freshSlot req assembly (allowedSteps req assembly))
      { slot := freshSlot req assembly (allowedSteps req assembly) } := by
    refine ⟨supplying_fresh (reachable_coherent reached).addressed (validateAssembly_ok accepted),
      fun _ => ⟨[], rfl, ?_, .nil, ?_, ?_, ?_⟩⟩ <;> simp [freshSlot]
  obtain ⟨g, tracked, terms, issued, supplying, history⟩ := tracks_exec policy
    (reachable_step call reached) (started.tracks reached) fresh
    (fun next member => by
      obtain ⟨before, after, split⟩ := List.append_of_mem member
      exact (fruitful before next after split).spares)
    (fun before next after g split tracked terms _ streams acts g' path allowed =>
      streams_path streams terms (inside_fingerprinted policy split tracked.found) path
        (fun act member => fruitful_of_allowed (fruitful before next after split) tracked terms
          (reachable_wellFormed (reachable_exec before (reachable_step call reached)))
          (allowed act member))
        allowed)
  obtain rfl := Option.some.inj (tracked.found.symm.trans found)
  obtain ⟨log, recorded⟩ := history room
  have everywhere : ∀ node ∈ g.slot.run.assembly.nodes, ∃ d ∈ g.derived, d.nodeId = node.id := by
    intro node member
    obtain ⟨d, made, own, id⟩ := committed node member
    rw [← tracked.derived]
    exact ⟨d, List.mem_filter.mpr ⟨made, beq_iff_eq.mpr own⟩, id⟩
  have latest : ∀ node ∈ g.slot.run.assembly.nodes, ∃ d, g.slot.latest.lookup node.id = some d := by
    intro node member
    obtain ⟨d, made, id⟩ := everywhere node member
    rw [← id]
    exact supplying.kept d made
  refine ⟨fun node member => ?_, ?_⟩
  · obtain ⟨d, known⟩ := latest node member
    refine ⟨d, known, fun last => ?_⟩
    refine quiet_settled (always.congr terms.assembly terms.policy) free supplying recorded
      (inside_fingerprinted policy (List.append_nil calls).symm tracked.found) unclaimed ?_ everywhere
      member known ?_
    · intro node member
      rw [← readyUnit_caps (tracked.caps node member)]
      exact unready node member
    · rw [issued, ← tracked.derived]
      exact last
  · obtain ⟨artifacts, inputs, valid⟩ := supplying.valid
    obtain ⟨terminal, node, cap, p, declared, known, resolved, output, -⟩ := valid.terminal
    obtain ⟨member, id⟩ := nodeById_eq_some known
    obtain ⟨d, last⟩ := latest node member
    obtain ⟨listed, name⟩ := port_spec output
    obtain ⟨r, carried⟩ := (supplying.latest node.id d last).2.2 node member rfl cap resolved p listed
    rw [id] at last
    rw [name] at carried
    exact ⟨terminal, d, r, declared, last, carried,
      (supplying.answer terminal declared d last).trans carried⟩

end Streams

section Echo

open Substrate.Kernel.Concrete

/-- The work ids that a list of calls is handed. -/
def handedIds (calls : List Call) : List String :=
  (emitted (fun s call => (handedOut (step policy s call).2).map (·.id))
    (fun s call => (step policy s call).1) (echoing .always .open) calls)

/-- Two lines in flight. -/
def overtaken : List Call :=
  [claimAt 0, callAt 0 (.putArtifact (text "two")),
    callAt 0 (.injectInput { runId := "r", input := some (given "line" (text "two")) }), claimAt 0]

/-- The newer line is committed before the older one. -/
def overtaking : List Call :=
  [commitAt 1 ((handedIds overtaken).getD 1 "") (text "two"),
    commitAt 1 ((handedIds overtaken).getD 0 "") (text "one")]

/-- Nothing is READY or CLAIMED, the node would resolve to the new line, and its latest derivation
and the answer are of the old one. -/
theorem quiet_run_overtaken :
    let t := exec policy (echoing .always .open) (overtaken ++ overtaking)
    (t.runs.lookup "r").map (fun now => (size now.claimed,
        now.run.assembly.nodes.map fun node => (readyUnit t.modules now node).isSome)) =
          some (0, [false]) ∧
      (t.runs.lookup "r").map (fun now => now.run.assembly.nodes.map fun node =>
        (resolveInputs now node, (now.latest.lookup node.id).map (·.inputs))) =
          some [(some [given "heard" (text "two")], some [given "heard" (text "one")])] ∧
      (t.runs.lookup "r").map (·.run.answer) = some (some ⟨artifactIdOf (text "one")⟩) := by
  refine ⟨?_, ?_, ?_⟩ <;> decide +kernel

/-- Claim the first line and commit it. -/
def answered : List Call :=
  [claimAt 0, commitAt 1 ((handedIds [claimAt 0]).getD 0 "") (text "one")]

/-- The delivery bytes of the nodes of the run. -/
def deliveriesAt (s : State) : Option (List (Option Bytes)) :=
  (s.runs.lookup "r").map fun slot => slot.run.assembly.nodes.map fun node =>
    (resolveInputs slot node).bind fun inputs => (deliveryRows slot node inputs).map deliveryBytes

private theorem fingerprinted_answered {bytes : Bytes}
    (member : bytes ∈ fingerprinted policy "r" (echoing .always .open) answered) :
    bytes = deliveryBytes [("heard", artifactIdOf (text "one"), 0)] := by
  obtain ⟨before, after, slot, node, inputs, rows, split, found, pinned, resolved, made, rfl⟩ := member
  have one : deliveriesAt (exec policy (echoing .always .open) before) =
      some [some (deliveryBytes [("heard", artifactIdOf (text "one"), 0)])] := by
    rcases before with _ | ⟨_, _ | ⟨_, _ | ⟨_, before⟩⟩⟩ <;>
      simp only [answered, List.cons_append, List.nil_append, List.cons.injEq] at split
    · decide +kernel
    · obtain ⟨rfl, -⟩ := split
      decide +kernel
    · obtain ⟨rfl, rfl, -⟩ := split
      decide +kernel
    · simp at split
  rw [deliveriesAt, found, Option.map_some, Option.some.injEq] at one
  have listed := List.mem_map_of_mem (f := fun node => (resolveInputs slot node).bind fun inputs =>
    (deliveryRows slot node inputs).map deliveryBytes) pinned
  rw [one, List.mem_singleton, resolved, Option.bind_some, made, Option.map_some] at listed
  exact Option.some.inj listed

/-- Whether a slot is quiet, with its only node at the derivation that was committed last. -/
def rests (s : State) (issued : List WorkItem) (slot : RunSlot) : Bool :=
  slot.inputEpochs.entries.all (fun e => e.2.toNat + 1 < 2 ^ 64) && size slot.claimed == 0 &&
    slot.run.assembly.nodes == echoes.nodes && slot.run.assembly.terminal == echoes.terminal &&
    slot.run.assembly.nodes.all (fun node => (readyUnit s.modules slot node).isNone) &&
    s.derivations.any (fun d => d.runId == "r" && d.nodeId == "n") &&
    (slot.latest.lookup "n").map (fun d => [d.workId]) == some (issued.map (·.id))

private theorem rests_answered :
    ((exec policy (echoing .always .open) answered).runs.lookup "r").any
      (rests (exec policy (echoing .always .open) answered)
        (issuedOf policy "r" (echoing .always .open) answered)) = true := by
  decide +kernel

private theorem rests_unsaturated {slot : RunSlot}
    (low : slot.inputEpochs.entries.all (fun e => e.2.toNat + 1 < 2 ^ 64) = true) :
    Unsaturated slot := by
  intro name
  cases known : slot.inputEpochs.lookup name with
  | none => decide
  | some epoch =>
      exact of_decide_eq_true (List.all_eq_true.mp low ⟨name, epoch⟩ (AList.mem_lookup_iff.mp known))

/-- The run that has answered is quiet: its node's latest derivation has the inputs that the node
resolves to, and the answer is what it put out. -/
theorem quiet_runs_settle_answered :
    ∃ now d r, (exec policy (echoing .always .open) answered).runs.lookup "r" = some now ∧
      now.latest.lookup "n" = some d ∧
      resolveInputs now ⟨"n", "echo", "1", "say"⟩ = some d.inputs ∧
      outputOf d.outputs "said" = some r ∧ now.run.answer = some r := by
  obtain ⟨slot, found, started, -, -⟩ :=
    started_echo .always .open true (by decide +kernel) (by decide +kernel)
  have always : FiresAlways (exec policy {} (stocked .always)).modules slot := by
    have firing : ((echoing .always .open).runs.lookup "r").map (fun slot =>
        slot.run.assembly.nodes.all fun node =>
          (capabilityForNode (exec policy {} (stocked .always)).modules node).toOption.all
            fun cap => effectiveFiring slot node cap == .always) = some true := by
      decide +kernel
    rw [found, Option.map_some, Option.some.injEq, List.all_eq_true] at firing
    intro node member cap resolved
    have fires := firing node member
    rw [resolved] at fires
    exact beq_iff_eq.mp fires
  have free : Set.InjOn Sha256.digest (fingerprinted policy "r" (echoing .always .open) answered) := by
    intro x hx y hy _
    rw [fingerprinted_answered hx, fingerprinted_answered hy]
  obtain ⟨now, there, quiet⟩ := (Option.any_eq_true _ _).mp rests_answered
  simp only [rests, Bool.and_eq_true, beq_iff_eq] at quiet
  obtain ⟨⟨⟨⟨⟨⟨low, unclaimed⟩, nodes⟩, terminal⟩, unready⟩, derived⟩, last⟩ := quiet
  obtain ⟨each, declared, d, r, named, known, output, answer⟩ :=
    quiet_runs_settle policy ⟨_, rfl⟩ started always (fun before call after split =>
      echo_fruitful slot (by decide +kernel) (by decide +kernel) (by decide +kernel) split) free now
      there (rests_unsaturated low) unclaimed
      (fun node member => Option.isNone_iff_eq_none.mp (List.all_eq_true.mp unready node member))
      (fun node member => by
        rw [nodes] at member
        obtain rfl := List.mem_singleton.mp member
        obtain ⟨d, made, own⟩ := List.any_eq_true.mp derived
        rw [Bool.and_eq_true, beq_iff_eq, beq_iff_eq] at own
        exact ⟨d, made, own⟩)
  rw [terminal] at named
  obtain rfl := Option.some.inj named
  obtain ⟨d', known', settled⟩ := each ⟨"n", "echo", "1", "say"⟩ (nodes ▸ List.mem_singleton_self _)
  obtain rfl := Option.some.inj (known.symm.trans known')
  refine ⟨now, d, r, there, known, settled ?_, output, answer⟩
  rw [known, Option.map_some, Option.some.injEq] at last
  obtain ⟨w, rest, issued, id, none⟩ := List.map_eq_cons_iff.mp last.symm
  obtain rfl := List.map_eq_nil_iff.mp none
  exact ⟨[], w, [], issued, id, List.forall_mem_nil _⟩

end Echo

end Substrate.Protocol.Stream
