import Peerdup.AuthProperties
import Peerdup.Reference
import Peerdup.Foundation.CausalOrder
import Peerdup.Foundation.Machine

/-!
# Operations delivered in any order

`apply_remote` keeps what it cannot apply yet and drains it when the missing
operations arrive. Once a set closed under deps is there, all of it is applied.
-/

set_option autoImplicit false

namespace Peerdup.Auth

open Foundation

/-- The CRDT state after the operations, one after another. -/
def GroupCrdt.processAll (crdt : GroupCrdt) : crdt.State → List SignedOp → Except String crdt.State
  | state, [] => .ok state
  | state, op :: ops =>
      match crdt.process state op with
      | .error cause => .error cause
      | .ok next => crdt.processAll next ops

theorem GroupCrdt.processAll_append_iff {crdt : GroupCrdt} {state final : crdt.State}
    {front back : List SignedOp} :
    crdt.processAll state (front ++ back) = .ok final ↔
      ∃ middle, crdt.processAll state front = .ok middle ∧ crdt.processAll middle back = .ok final := by
  induction front generalizing state with
  | nil => simp [processAll]
  | cons op front ih =>
      rw [List.cons_append, processAll, processAll]
      cases crdt.process state op with
      | error cause => simp
      | ok next => exact ih

theorem GroupCrdt.processAll_concat {crdt : GroupCrdt} {state middle next : crdt.State}
    {ops : List SignedOp} {op : SignedOp} (earlier : crdt.processAll state ops = .ok middle)
    (last : crdt.process middle op = .ok next) : crdt.processAll state (ops ++ [op]) = .ok next := by
  refine processAll_append_iff.mpr ⟨middle, earlier, ?_⟩
  rw [processAll, last]
  rfl

section Group

variable (crypto : Primitives)

/-- All deps are among the operations taken. -/
abbrev Ready (taken : List SignedOp) (op : SignedOp) : Prop :=
  CausalOrder.Ready (·.computeId crypto) SignedOp.deps taken op

/-- Deps come before dependants. -/
abbrev CausallyOrdered (ops : List SignedOp) : Prop :=
  CausalOrder.Ordered (·.computeId crypto) SignedOp.deps ops

/-- A set of signed operations closed under deps. Ids are hashes: they tell its
operations apart, and no operation names itself through others. -/
structure SignedGroup (group : Finset SignedOp) : Prop where
  signed : ∀ op ∈ group, op.verify crypto = .ok ()
  closed : ∀ op ∈ group, ∀ dep ∈ op.deps, ∃ other ∈ group, other.computeId crypto = dep
  apart : ∀ op ∈ group, ∀ other ∈ group, op.computeId crypto = other.computeId crypto → op = other
  acyclic : CausalOrder.Acyclic (·.computeId crypto) SignedOp.deps (group : Set SignedOp)

/-- A causal order of some of the group's operations, each once. -/
structure CausalListing (group : Finset SignedOp) (ops : List SignedOp) : Prop where
  among : ∀ op ∈ ops, op ∈ group
  nodup : ops.Nodup
  ordered : CausallyOrdered crypto ops

variable (crdt : GroupCrdt)

/-- The CRDT accepts every operation whose deps have been processed. -/
def AcceptsReady (group : Finset SignedOp) : Prop :=
  ∀ ops state, CausalListing crypto group ops → crdt.processAll crdt.new ops = .ok state →
    ∀ op ∈ group, op ∉ ops → Ready crypto ops op → ∃ next, crdt.process state op = .ok next

/-- The CRDT state does not depend on the causal order chosen. -/
def OrderIrrelevant (group : Finset SignedOp) : Prop :=
  ∀ first second left right, CausalListing crypto group first → CausalListing crypto group second →
    first.Perm second → crdt.processAll crdt.new first = .ok left →
    crdt.processAll crdt.new second = .ok right → left = right

end Group

section TakeReady

variable {crypto : Primitives} {taken pending : List SignedOp}

theorem ready_iff (op : SignedOp) :
    op.deps.all (· ∈ taken.map (·.computeId crypto)) = true ↔ Ready crypto taken op := by
  simp [CausalOrder.Ready]

theorem takeReady_some {rest : List SignedOp} {op : SignedOp}
    (found : takeReady (taken.map (·.computeId crypto)) pending = some (op, rest)) :
    Ready crypto taken op ∧ (op :: rest).Perm pending := by
  induction pending generalizing rest with
  | nil => cases found
  | cons first pending ih =>
      rw [takeReady] at found
      split at found
      · next ready =>
          cases found
          exact ⟨(ready_iff _).mp ready, List.Perm.refl _⟩
      · obtain ⟨⟨other, others⟩, earlier, same⟩ := Option.map_eq_some_iff.mp found
        cases same
        obtain ⟨ready, perm⟩ := ih earlier
        exact ⟨ready, (List.Perm.swap first op others).trans (perm.cons first)⟩

theorem takeReady_eq_none_iff :
    takeReady (taken.map (·.computeId crypto)) pending = none ↔
      ∀ op ∈ pending, ¬ Ready crypto taken op := by
  induction pending with
  | nil => exact ⟨fun _ _ member => absurd member List.not_mem_nil, fun _ => rfl⟩
  | cons first pending ih =>
      rw [takeReady, List.forall_mem_cons, ← ih]
      by_cases ready : Ready crypto taken first
      · rw [if_pos ((ready_iff first).mpr ready)]
        exact ⟨fun contra => (by cases contra), fun both => absurd ready both.1⟩
      · rw [if_neg (mt (ready_iff first).mp ready), Option.map_eq_none_iff]
        exact ⟨fun rest => ⟨ready, rest⟩, And.right⟩

end TakeReady

namespace AuthState

variable {crypto : Primitives} {crdt : GroupCrdt} {group : Finset SignedOp}

/-- What was delivered is applied, in causal order, or waits, each once. -/
structure Gathered (crypto : Primitives) (group : Finset SignedOp) (delivered : Set SignedOp)
    (state : AuthState crdt) : Prop where
  processed : crdt.processAll crdt.new state.ops = .ok state.crdt
  ordered : CausallyOrdered crypto state.ops
  nodup : (state.ops ++ state.pending).Nodup
  delivered_iff : ∀ op, op ∈ state.ops ++ state.pending ↔ op ∈ delivered
  among : ∀ op ∈ delivered, op ∈ group

/-- Nothing that waits is ready. -/
structure Stuck (crypto : Primitives) (group : Finset SignedOp) (delivered : Set SignedOp)
    (state : AuthState crdt) : Prop extends Gathered crypto group delivered state where
  none_ready : ∀ op ∈ state.pending, ¬ Ready crypto state.ops op

theorem Gathered.listing {delivered : Set SignedOp} {state : AuthState crdt}
    (gathered : Gathered crypto group delivered state) :
    CausalListing crypto group state.ops where
  among op member :=
    gathered.among op ((gathered.delivered_iff op).mp (List.mem_append_left _ member))
  nodup := (List.nodup_append.mp gathered.nodup).1
  ordered := gathered.ordered

theorem Gathered.process {delivered : Set SignedOp} {state : AuthState crdt}
    (accepts : AcceptsReady crypto crdt group) {op : SignedOp} {rest : List SignedOp}
    (gathered : Gathered crypto group delivered { state with pending := op :: rest })
    (ready : Ready crypto state.ops op) :
    ∃ next, ({ state with pending := rest } : AuthState crdt).process op =
        (.ok (), { state with crdt := next, ops := state.ops ++ [op], pending := rest }) ∧
      Gathered crypto group delivered
        { state with crdt := next, ops := state.ops ++ [op], pending := rest } := by
  have perm : (state.ops ++ op :: rest).Perm (state.ops ++ [op] ++ rest) := by
    rw [List.append_assoc]
    exact List.Perm.refl _
  have fresh : op ∉ state.ops := by
    intro held
    have apart := (List.nodup_append.mp gathered.nodup).2.2
    exact apart op held op List.mem_cons_self rfl
  have member : op ∈ group :=
    gathered.among op ((gathered.delivered_iff op).mp (List.mem_append_right _ List.mem_cons_self))
  obtain ⟨next, accepted⟩ :=
    accepts state.ops state.crdt gathered.listing gathered.processed op member fresh ready
  refine ⟨next, ?_, ?_, gathered.ordered.concat ready, perm.nodup_iff.mp gathered.nodup, ?_,
    gathered.among⟩
  · rw [AuthState.process]
    dsimp only
    rw [accepted]
  · exact GroupCrdt.processAll_concat gathered.processed accepted
  · intro other
    exact perm.mem_iff.symm.trans (gathered.delivered_iff other)

theorem Gathered.permute {delivered : Set SignedOp} {state : AuthState crdt}
    {pending : List SignedOp} (gathered : Gathered crypto group delivered state)
    (perm : pending.Perm state.pending) :
    Gathered crypto group delivered { state with pending } where
  processed := gathered.processed
  ordered := gathered.ordered
  nodup := (perm.append_left state.ops).nodup_iff.mpr gathered.nodup
  delivered_iff op := (perm.append_left state.ops).mem_iff.trans (gathered.delivered_iff op)
  among := gathered.among

theorem Gathered.drainRounds {delivered : Set SignedOp} (accepts : AcceptsReady crypto crdt group)
    (rounds : Nat) {state : AuthState crdt} (gathered : Gathered crypto group delivered state)
    (enough : state.pending.length ≤ rounds) :
    ∃ final, state.drainRounds crypto rounds = (.ok (), final) ∧
      Stuck crypto group delivered final := by
  induction rounds generalizing state with
  | zero =>
      refine ⟨state, rfl, gathered, fun op member => ?_⟩
      rw [List.eq_nil_of_length_eq_zero (Nat.le_zero.mp enough)] at member
      cases member
  | succ rounds ih =>
      unfold AuthState.drainRounds
      cases found : takeReady (state.opIds crypto) state.pending with
      | none => exact ⟨state, rfl, gathered, takeReady_eq_none_iff.mp found⟩
      | some taken =>
          obtain ⟨op, rest⟩ := taken
          obtain ⟨ready, perm⟩ := takeReady_some found
          obtain ⟨next, processed, after⟩ := (gathered.permute perm).process accepts ready
          dsimp only
          rw [processed]
          refine ih after ?_
          have length := perm.length_eq
          rw [List.length_cons] at length
          change rest.length ≤ rounds
          omega

theorem gathered_insert {delivered : Set SignedOp} {state : AuthState crdt} {op : SignedOp}
    {pending : List SignedOp} (gathered : Gathered crypto group delivered state)
    (perm : pending.Perm (op :: state.pending)) (fresh : op ∉ delivered) (member : op ∈ group) :
    Gathered crypto group (insert op delivered) { state with pending } where
  processed := gathered.processed
  ordered := gathered.ordered
  nodup := by
    have front : (state.ops ++ pending).Perm (op :: (state.ops ++ state.pending)) :=
      (perm.append_left state.ops).trans List.perm_middle
    refine front.nodup_iff.mpr (List.nodup_cons.mpr ⟨fun held => fresh ?_, gathered.nodup⟩)
    exact (gathered.delivered_iff op).mp held
  delivered_iff other := by
    have front : (state.ops ++ pending).Perm (op :: (state.ops ++ state.pending)) :=
      (perm.append_left state.ops).trans List.perm_middle
    rw [front.mem_iff, List.mem_cons, gathered.delivered_iff, Set.mem_insert_iff]
  among other held := by
    rcases held with same | earlier
    · exact same ▸ member
    · exact gathered.among other earlier

theorem Stuck.applyRemote {delivered : Set SignedOp} {state : AuthState crdt}
    (signed : SignedGroup crypto group) (accepts : AcceptsReady crypto crdt group)
    (stuck : Stuck crypto group delivered state) {op : SignedOp} (member : op ∈ group) :
    ∃ applied next, state.applyRemote crypto op = (.ok applied, next) ∧
      Stuck crypto group (insert op delivered) next := by
  unfold AuthState.applyRemote
  rw [signed.signed op member]
  dsimp only
  by_cases known : op ∈ delivered
  · -- A repeated delivery is recognised by its id.
    have held := List.mem_append.mp ((stuck.delivered_iff op).mpr known)
    have found : ((state.ops.any fun other => other.computeId crypto = op.computeId crypto) ||
        (state.pending.any fun other => other.computeId crypto = op.computeId crypto)) = true := by
      simp only [Bool.or_eq_true, List.any_eq_true, decide_eq_true_eq]
      exact held.imp (fun listed => ⟨op, listed, rfl⟩) fun listed => ⟨op, listed, rfl⟩
    rw [if_pos found, Set.insert_eq_of_mem known]
    exact ⟨false, state, rfl, stuck⟩
  have absent : ¬ ((state.ops.any fun other => other.computeId crypto = op.computeId crypto) ||
      (state.pending.any fun other => other.computeId crypto = op.computeId crypto)) = true := by
    simp only [Bool.or_eq_true, List.any_eq_true, decide_eq_true_eq]
    intro either
    have found : ∃ other ∈ state.ops ++ state.pending,
        other.computeId crypto = op.computeId crypto := by
      rcases either with ⟨other, listed, same⟩ | ⟨other, listed, same⟩
      · exact ⟨other, List.mem_append_left _ listed, same⟩
      · exact ⟨other, List.mem_append_right _ listed, same⟩
    obtain ⟨other, listed, same⟩ := found
    have earlier := (stuck.delivered_iff other).mp listed
    exact known (signed.apart other (stuck.among other earlier) op member same ▸ earlier)
  rw [if_neg absent]
  by_cases ready : Ready crypto state.ops op
  · have all : ¬ (!op.deps.all (· ∈ state.opIds crypto)) = true := by
      rw [Bool.not_eq_true', Bool.not_eq_false]
      exact (ready_iff op).mpr ready
    rw [if_neg all]
    have arrived := gathered_insert stuck.toGathered (List.Perm.refl _) known member
    obtain ⟨next, processed, after⟩ := arrived.process accepts ready
    obtain ⟨final, drained, settled⟩ := after.drainRounds accepts _ (Nat.le_refl _)
    rw [processed]
    dsimp only
    rw [drainPending, drained]
    exact ⟨true, final, rfl, settled⟩
  · have missing : (!op.deps.all (· ∈ state.opIds crypto)) = true := by
      rw [Bool.not_eq_true', Bool.eq_false_iff]
      exact mt (ready_iff op).mp ready
    rw [if_pos missing]
    have queued := gathered_insert stuck.toGathered (List.perm_append_singleton op state.pending)
      known member
    refine ⟨false, _, rfl, queued, fun other listed => ?_⟩
    rcases List.mem_append.mp listed with waits | last
    · exact stuck.none_ready other waits
    · rw [List.mem_singleton.mp last]
      exact ready

/-- Delivers operations as long as every call returns `Ok`. -/
def deliverer (crypto : Primitives) : Machine (AuthState crdt) SignedOp where
  step state op :=
    match state.applyRemote crypto op with
    | (.error _, _) => none
    | (.ok _, next) => some next

theorem stuck_of_deliveries (signed : SignedGroup crypto group)
    (accepts : AcceptsReady crypto crdt group) (deliveries : List SignedOp)
    (among : ∀ op ∈ deliveries, op ∈ group) :
    ∃ final : AuthState crdt, (deliverer crypto).run .empty deliveries = some final ∧
      Stuck crypto group {op | op ∈ deliveries} final := by
  induction deliveries using List.reverseRecOn with
  | nil =>
      refine ⟨.empty, rfl, ⟨rfl, CausalOrder.ordered_nil _ _, List.nodup_nil, ?_, ?_⟩, ?_⟩
      · exact fun op => Iff.rfl
      · exact fun op member => absurd member List.not_mem_nil
      · exact fun op member => absurd member List.not_mem_nil
  | append_singleton earlier op ih =>
      obtain ⟨middle, ran, stuck⟩ := ih fun other listed => among other (List.mem_append_left _ listed)
      obtain ⟨applied, next, called, settled⟩ :=
        stuck.applyRemote signed accepts (among op (List.mem_append_right _ List.mem_cons_self))
      have stepped : (deliverer crypto).step middle op = some next := by
        simp only [deliverer, called]
      have whole : {other | other ∈ earlier ++ [op]} = insert op {other | other ∈ earlier} := by
        ext other
        simp [or_comm]
      refine ⟨next, ?_, whole ▸ settled⟩
      exact (Machine.run_append_iff _).mpr
        ⟨middle, ran, (Machine.run_cons_iff _).mpr ⟨next, stepped, rfl⟩⟩

theorem Stuck.complete {delivered : Set SignedOp} {state : AuthState crdt}
    (signed : SignedGroup crypto group) (stuck : Stuck crypto group delivered state)
    (complete : ∀ op ∈ group, op ∈ delivered) : state.pending = [] := by
  by_contra waits
  have arrived : ∀ op ∈ state.pending, ∀ dep ∈ op.deps,
      dep ∈ (state.ops ++ state.pending).map (·.computeId crypto) := by
    intro op listed dep named
    have member := stuck.among op ((stuck.delivered_iff op).mp (List.mem_append_right _ listed))
    obtain ⟨other, held, same⟩ := signed.closed op member dep named
    exact List.mem_map.mpr ⟨other, (stuck.delivered_iff other).mpr (complete other held), same⟩
  have among : ∀ op ∈ state.pending, op ∈ (group : Set SignedOp) := fun op listed =>
    stuck.among op ((stuck.delivered_iff op).mp (List.mem_append_right _ listed))
  obtain ⟨op, listed, ready⟩ := CausalOrder.exists_ready signed.acyclic among arrived waits
  exact stuck.none_ready op listed ready

/-- Any order of delivery, with repetitions, applies exactly the group, in causal order. -/
theorem authDelivery_orderIndependent (crypto : Primitives) (crdt : GroupCrdt)
    (group : Finset SignedOp) (signed : SignedGroup crypto group)
    (accepts : AcceptsReady crypto crdt group) (deliveries : List SignedOp)
    (delivered_iff : ∀ op, op ∈ deliveries ↔ op ∈ group) :
    (∀ earlier later, deliveries = earlier ++ later →
      ∃ state : AuthState crdt, (deliverer crypto).run .empty earlier = some state ∧
        ∀ op ∈ state.pending, ¬ Ready crypto state.ops op) ∧
    ∃ final : AuthState crdt, (deliverer crypto).run .empty deliveries = some final ∧
      final.pending = [] ∧ final.ops.Nodup ∧ (∀ op, op ∈ final.ops ↔ op ∈ group) ∧
      CausallyOrdered crypto final.ops ∧
      ∀ others : List SignedOp, (∀ op, op ∈ others ↔ op ∈ group) →
        ∃ other : AuthState crdt, (deliverer crypto).run .empty others = some other ∧
          final.ops.Perm other.ops ∧
          (OrderIrrelevant crypto crdt group →
            ∀ groupId, final.members groupId = other.members groupId) := by
  have completes : ∀ listed : List SignedOp, (∀ op, op ∈ listed ↔ op ∈ group) →
      ∃ final : AuthState crdt, (deliverer crypto).run .empty listed = some final ∧
        Stuck crypto group {op | op ∈ listed} final ∧ final.pending = [] ∧
        ∀ op, op ∈ final.ops ↔ op ∈ group := by
    intro listed listed_iff
    obtain ⟨final, ran, stuck⟩ := stuck_of_deliveries signed accepts listed
      fun op member => (listed_iff op).mp member
    have none := stuck.complete signed fun op member => (listed_iff op).mpr member
    refine ⟨final, ran, stuck, none, fun op => ?_⟩
    have held := stuck.delivered_iff op
    rw [none, List.append_nil] at held
    exact held.trans (listed_iff op)
  constructor
  · intro earlier later whole
    obtain ⟨state, ran, stuck⟩ := stuck_of_deliveries signed accepts earlier
      fun op member => (delivered_iff op).mp (whole ▸ List.mem_append_left later member)
    exact ⟨state, ran, stuck.none_ready⟩
  · obtain ⟨final, ran, stuck, none, ops_iff⟩ := completes deliveries delivered_iff
    refine ⟨final, ran, none, stuck.listing.nodup, ops_iff, stuck.ordered, fun others others_iff => ?_⟩
    obtain ⟨other, otherRan, otherStuck, _, other_iff⟩ := completes others others_iff
    have perm : final.ops.Perm other.ops := by
      refine (List.perm_ext_iff_of_nodup stuck.listing.nodup otherStuck.listing.nodup).mpr ?_
      exact fun op => (ops_iff op).trans (other_iff op).symm
    refine ⟨other, otherRan, perm, fun irrelevant groupId => ?_⟩
    have same := irrelevant final.ops other.ops _ _ stuck.listing otherStuck.listing perm
      stuck.processed otherStuck.processed
    rw [members, members, same]

section Samples

open Reference

def creation : SignedOp := (AuthState.empty : AuthState sequentialGroup).authored cleartext founder docs
  (createAction founder.val)

def admission : SignedOp :=
  founded.authored cleartext founder docs (.add (.individual guest.val) AuthRole.writer.toAccess)

def admissionGroup : Finset SignedOp := {creation, admission}

theorem admissionGroup_signed : SignedGroup cleartext admissionGroup where
  signed op member := by
    have checked : ∀ op ∈ [creation, admission], op.verify cleartext = .ok () := by decide +kernel
    exact checked op (by simpa [admissionGroup] using member)
  closed op member dep named := by
    have none : creation.deps = [] := by decide +kernel
    have one : admission.deps = [creation.computeId cleartext] := by decide +kernel
    refine ⟨creation, Finset.mem_insert_self _ _, ?_⟩
    rcases Finset.mem_insert.mp member with same | same
    · rw [same, none] at named
      cases named
    · rw [Finset.mem_singleton.mp same, one] at named
      exact (List.mem_singleton.mp named).symm
  apart op member other held same := by
    have apart : creation.computeId cleartext ≠ admission.computeId cleartext := by decide +kernel
    rcases Finset.mem_insert.mp member with first | first <;>
      rcases Finset.mem_insert.mp held with second | second
    · exact first.trans second.symm
    · rw [first, Finset.mem_singleton.mp second] at same
      exact absurd same apart
    · rw [second, Finset.mem_singleton.mp first] at same
      exact absurd same.symm apart
    · exact (Finset.mem_singleton.mp first).trans (Finset.mem_singleton.mp second).symm
  acyclic := by
    refine CausalOrder.acyclic_of_rank (fun op => op.deps.length) fun first member second held names => ?_
    have none : creation.deps = [] := by decide +kernel
    have self : admission.computeId cleartext ∉ admission.deps := by decide +kernel
    rcases Finset.mem_insert.mp held with same | same
    · have contra : first.computeId cleartext ∈ creation.deps := same ▸ names
      rw [none] at contra
      cases contra
    · rw [Finset.mem_singleton.mp same] at names ⊢
      rcases Finset.mem_insert.mp member with early | late
      · rw [early]
        decide +kernel
      · rw [Finset.mem_singleton.mp late] at names
        exact absurd names self

theorem admissionGroup_accepted : AcceptsReady cleartext sequentialGroup admissionGroup := by
  intro ops state listing processed op member fresh ready
  have none : creation.deps = [] := by decide +kernel
  have named : creation.computeId cleartext ∈ admission.deps := by decide +kernel
  -- Whatever is listed starts with the creation.
  have starts : ∀ first rest, ops = first :: rest → first = creation := by
    intro first rest whole
    rcases Finset.mem_insert.mp (listing.among first (whole ▸ List.mem_cons_self)) with same | same
    · exact same
    · have waits := listing.ordered [] first rest whole
      rw [Finset.mem_singleton.mp same] at waits
      exact absurd (waits _ named) List.not_mem_nil
  rcases Finset.mem_insert.mp member with same | same
  · cases ops with
    | nil =>
        cases processed
        rw [same]
        have accepted : (sequentialGroup.process sequentialGroup.new creation).isOk = true := by
          decide +kernel
        revert accepted
        cases sequentialGroup.process sequentialGroup.new creation with
        | error cause => exact fun contra => by cases contra
        | ok next => exact fun _ => ⟨next, rfl⟩
    | cons first rest =>
        refine absurd ?_ fresh
        rw [same, starts first rest rfl]
        exact List.mem_cons_self
  · rw [Finset.mem_singleton.mp same] at fresh ready ⊢
    obtain ⟨earlier, held, _⟩ := List.mem_map.mp (ready _ named)
    have only : ops = [creation] := by
      cases ops with
      | nil => cases held
      | cons first rest =>
          have head := starts first rest rfl
          cases rest with
          | nil => rw [head]
          | cons second others =>
              have listed := listing.among second (List.mem_cons_of_mem _ List.mem_cons_self)
              rcases Finset.mem_insert.mp listed with again | again
              · have apart := (List.nodup_cons.mp listing.nodup).1
                rw [head, again] at apart
                exact absurd List.mem_cons_self apart
              · rw [Finset.mem_singleton.mp again] at fresh
                exact absurd (List.mem_cons_of_mem _ List.mem_cons_self) fresh
    rw [only] at processed
    have accepted : (sequentialGroup.processAll sequentialGroup.new [creation, admission]).isOk =
        true := by decide +kernel
    rw [GroupCrdt.processAll] at processed accepted
    revert processed accepted
    cases sequentialGroup.process sequentialGroup.new creation with
    | error cause => exact fun contra => by cases contra
    | ok middle =>
        intro processed
        cases processed
        dsimp only
        rw [GroupCrdt.processAll]
        cases sequentialGroup.process state admission with
        | error cause => exact fun contra => absurd contra Bool.false_ne_true
        | ok next => exact fun _ => ⟨next, rfl⟩

/-- The admission arrives before the creation, and again after it. -/
theorem admissionGroup_delivered :
    ∃ final : AuthState sequentialGroup, (deliverer cleartext).run .empty
        [admission, creation, admission] = some final ∧
      final.pending = [] ∧ ∀ op, op ∈ final.ops ↔ op ∈ admissionGroup := by
  have all : ∀ op, op ∈ [admission, creation, admission] ↔ op ∈ admissionGroup := by
    intro op
    simp [admissionGroup, or_comm]
  obtain ⟨_, final, ran, none, _, ops_iff, _⟩ := authDelivery_orderIndependent cleartext
    sequentialGroup admissionGroup admissionGroup_signed admissionGroup_accepted
    [admission, creation, admission] all
  exact ⟨final, ran, none, ops_iff⟩

end Samples

end AuthState

end Peerdup.Auth
