import Mathlib.Data.List.Nodup
import Mathlib.Data.List.Perm.Basic
import Mathlib.Data.List.Range
import Peerdup.Foundation.Machine

/-!
# Tasks behind a queue

Callers send requests over a bounded channel to a task that takes one at a time, beside
steps of its own, until it returns. Every request carries a slot for its reply.
-/

set_option autoImplicit false

namespace Peerdup.Foundation

/-- What a task does with a request and on its own. The flag tells whether it goes on. -/
structure Actor (State Request Reply Input Own : Type) where
  handle : State → Request → Input → Reply × State × Bool
  act : State → Own → State × Bool

namespace Actor

inductive Outcome (Reply : Type) where
  | replied (reply : Reply)
  /-- The channel was closed when the caller tried to send. -/
  | unsent
  /-- The task returned with the request still in the channel. -/
  | dropped

/-- What a task has done. -/
inductive Entry (Request Reply Input Own : Type) where
  | handled (call : Nat) (request : Request) (input : Input) (reply : Reply)
  | acted (own : Own)

def Entry.call? {Request Reply Input Own : Type} : Entry Request Reply Input Own → Option Nat
  | .handled call _ _ _ => some call
  | .acted _ => none

/-- Calls are numbered as they begin. Outcomes and the log are kept oldest first. -/
structure Mailbox (State Request Reply Input Own : Type) where
  state : State
  alive : Bool
  requests : List Request
  sending : List (Nat × Request)
  queue : List (Nat × Request)
  outcomes : List (Nat × Outcome Reply)
  log : List (Entry Request Reply Input Own)

inductive Event (Request Input Own : Type) where
  | call (request : Request)
  /-- One of the callers that wait for room gets its request into the channel. -/
  | push (index : Nat)
  | refuse (index : Nat)
  | take (input : Input)
  | act (own : Own)

variable {State Request Reply Input Own : Type}

namespace Mailbox

variable (box : Mailbox State Request Reply Input Own)

def fresh (state : State) : Mailbox State Request Reply Input Own :=
  ⟨state, true, [], [], [], [], []⟩

/-- The task goes on, or returns and drops its end of the channel with all that is in it. -/
def settle (goesOn : Bool) : Mailbox State Request Reply Input Own :=
  if goesOn then box
  else { box with
    alive := false
    queue := []
    outcomes := box.outcomes ++ box.queue.map fun (call, _) => (call, .dropped) }

/-- The task has taken the oldest request and answered it. -/
def answer (state : State) (call : Nat) (request : Request) (input : Input) (reply : Reply)
    (queue : List (Nat × Request)) : Mailbox State Request Reply Input Own :=
  { box with
    state, queue
    outcomes := box.outcomes ++ [(call, Outcome.replied reply)]
    log := box.log ++ [Entry.handled call request input reply] }

def acted (state : State) (own : Own) : Mailbox State Request Reply Input Own :=
  { box with state, log := box.log ++ [Entry.acted own] }

def calls : List Nat := box.log.filterMap Entry.call?

/-- Every call that is known of, wherever it stands. -/
def known : List Nat :=
  box.sending.map Prod.fst ++ box.queue.map Prod.fst ++ box.outcomes.map Prod.fst

def Answered (call : Nat) (reply : Reply) : Prop := (call, Outcome.replied reply) ∈ box.outcomes

end Mailbox

variable (actor : Actor State Request Reply Input Own)

def machine (capacity : Nat) :
    Machine (Mailbox State Request Reply Input Own) (Event Request Input Own) where
  step box
    | .call request =>
        some { box with
          requests := box.requests ++ [request]
          sending := box.sending ++ [(box.requests.length, request)] }
    | .push index =>
        if box.alive && decide (box.queue.length < capacity) then
          box.sending[index]?.map fun sent =>
            { box with sending := box.sending.eraseIdx index, queue := box.queue ++ [sent] }
        else none
    | .refuse index =>
        if box.alive then none
        else
          box.sending[index]?.map fun (call, _) =>
            { box with
              sending := box.sending.eraseIdx index
              outcomes := box.outcomes ++ [(call, .unsent)] }
    | .take input =>
        if !box.alive then none
        else
          match box.queue with
          | [] => none
          | (call, request) :: queue =>
              let (reply, state, goesOn) := actor.handle box.state request input
              some ((box.answer state call request input reply queue).settle goesOn)
    | .act own =>
        if !box.alive then none
        else
          let (state, goesOn) := actor.act box.state own
          some ((box.acted state own).settle goesOn)

/-- One thing the task does, the state it comes to, and whether it goes on. -/
def Does (state : State) : Entry Request Reply Input Own → State → Bool → Prop
  | .handled _ request input reply, next, goesOn =>
      actor.handle state request input = (reply, next, goesOn)
  | .acted own, next, goesOn => actor.act state own = (next, goesOn)

/-- Doing these things one after the other brings the task to this state. -/
inductive Performs (start : State) : List (Entry Request Reply Input Own) → State → Bool → Prop where
  | start : Performs start [] start true
  | does {log state entry next goesOn} :
      Performs start log state true → actor.Does state entry next goesOn →
      Performs start (log ++ [entry]) next goesOn

/-- One order of the handled calls explains every reply. -/
structure Explained (start : State) (box : Mailbox State Request Reply Input Own) : Prop where
  performs : actor.Performs start box.log box.state box.alive
  once : box.calls.Nodup
  answered : ∀ call reply, box.Answered call reply ↔
    ∃ request input, .handled call request input reply ∈ box.log
  asked : ∀ call request input reply, .handled call request input reply ∈ box.log →
    box.requests[call]? = some request

/-- Every call stands in one place, and no request is left with a task that has returned. -/
structure Accounted (capacity : Nat) (box : Mailbox State Request Reply Input Own) : Prop where
  once : box.known.Perm (List.range box.requests.length)
  sent : ∀ sent ∈ box.sending, box.requests[sent.1]? = some sent.2
  queued : ∀ sent ∈ box.queue, box.requests[sent.1]? = some sent.2
  bounded : box.queue.length ≤ capacity
  closed : box.alive = false → box.queue = []

variable {actor : Actor State Request Reply Input Own} {capacity : Nat} {start : State}
  {box next : Mailbox State Request Reply Input Own} {event : Event Request Input Own}

namespace Mailbox

@[simp] theorem settle_state (goesOn : Bool) : (box.settle goesOn).state = box.state := by
  cases goesOn <;> rfl

@[simp] theorem settle_alive (goesOn : Bool) :
    (box.settle goesOn).alive = (box.alive && goesOn) := by
  cases goesOn <;> simp [settle]

@[simp] theorem settle_requests (goesOn : Bool) : (box.settle goesOn).requests = box.requests := by
  cases goesOn <;> rfl

@[simp] theorem settle_sending (goesOn : Bool) : (box.settle goesOn).sending = box.sending := by
  cases goesOn <;> rfl

@[simp] theorem settle_log (goesOn : Bool) : (box.settle goesOn).log = box.log := by
  cases goesOn <;> rfl

@[simp] theorem answered_settle (goesOn : Bool) (call : Nat) (reply : Reply) :
    (box.settle goesOn).Answered call reply ↔ box.Answered call reply := by
  cases goesOn with
  | true => rfl
  | false => simp [settle, Answered]

theorem queue_settle_subset (goesOn : Bool) : (box.settle goesOn).queue ⊆ box.queue := by
  cases goesOn with
  | true => exact fun _ member => member
  | false => exact List.nil_subset _

theorem known_settle (goesOn : Bool) : (box.settle goesOn).known.Perm box.known := by
  cases goesOn with
  | true => exact List.Perm.refl _
  | false =>
      simp only [settle, known, Bool.false_eq_true, if_false, List.map_nil, List.append_nil,
        List.map_append, List.map_map, Function.comp_def, List.append_assoc]
      exact (List.perm_append_comm).append_left _

end Mailbox

/-- All that one event can do. -/
inductive Moved (actor : Actor State Request Reply Input Own) (capacity : Nat)
    (box : Mailbox State Request Reply Input Own) :
    Event Request Input Own → Mailbox State Request Reply Input Own → Prop where
  | call {request} : Moved actor capacity box (.call request)
      { box with
        requests := box.requests ++ [request]
        sending := box.sending ++ [(box.requests.length, request)] }
  | push {index sent} :
      box.alive = true → box.queue.length < capacity → box.sending[index]? = some sent →
      Moved actor capacity box (.push index)
        { box with sending := box.sending.eraseIdx index, queue := box.queue ++ [sent] }
  | refuse {index sent} :
      box.alive = false → box.sending[index]? = some sent →
      Moved actor capacity box (.refuse index)
        { box with
          sending := box.sending.eraseIdx index
          outcomes := box.outcomes ++ [(sent.1, .unsent)] }
  | take {input call request queue reply state goesOn} :
      box.alive = true → box.queue = (call, request) :: queue →
      actor.handle box.state request input = (reply, state, goesOn) →
      Moved actor capacity box (.take input)
        ((box.answer state call request input reply queue).settle goesOn)
  | act {own state goesOn} :
      box.alive = true → actor.act box.state own = (state, goesOn) →
      Moved actor capacity box (.act own) ((box.acted state own).settle goesOn)

theorem moved_of_step (stepped : (actor.machine capacity).step box event = some next) :
    Moved actor capacity box event next := by
  unfold machine at stepped
  cases event with
  | call request =>
      cases stepped
      exact .call
  | push index =>
      dsimp only at stepped
      split at stepped
      · next open_ =>
          obtain ⟨sent, found, same⟩ := Option.map_eq_some_iff.mp stepped
          cases same
          rw [Bool.and_eq_true, decide_eq_true_eq] at open_
          exact .push open_.1 open_.2 found
      · cases stepped
  | refuse index =>
      dsimp only at stepped
      split at stepped
      · cases stepped
      · next closed =>
          obtain ⟨sent, found, same⟩ := Option.map_eq_some_iff.mp stepped
          cases same
          exact .refuse (Bool.eq_false_iff.mpr closed) found
  | take input =>
      dsimp only at stepped
      split at stepped
      · cases stepped
      next alive =>
        split at stepped
        · cases stepped
        · next queued =>
            cases stepped
            exact .take (by simpa using alive) queued rfl
  | act own =>
      dsimp only at stepped
      split at stepped
      · cases stepped
      · next alive =>
          cases stepped
          exact .act (by simpa using alive) rfl

/-- The state moves only as a request is handled, or by an act of the task's own. -/
theorem Moved.state_cases (moved : Moved actor capacity box event next) :
    next.state = box.state ∨
      (∃ call request input reply goesOn,
        actor.Does box.state (.handled call request input reply) next.state goesOn) ∨
      ∃ own goesOn, event = .act own ∧ actor.Does box.state (.acted own) next.state goesOn := by
  cases moved with
  | call => exact .inl rfl
  | push _ _ _ => exact .inl rfl
  | refuse _ _ => exact .inl rfl
  | @take input call request queue reply state goesOn alive queued handled =>
      refine .inr (.inl ⟨call, request, input, reply, goesOn, ?_⟩)
      rw [Mailbox.settle_state]
      exact handled
  | @act own state goesOn alive acted =>
      refine .inr (.inr ⟨own, goesOn, rfl, ?_⟩)
      rw [Mailbox.settle_state]
      exact acted

/-- A call that finds room and a task that takes it at once. -/
theorem run_served {served : State} {request : Request} {input : Input} {reply : Reply}
    {goesOn : Bool} (room : 0 < capacity) (alive : box.alive = true)
    (idle : box.sending = [] ∧ box.queue = [])
    (handled : actor.handle box.state request input = (reply, served, goesOn)) :
    (actor.machine capacity).run box [.call request, .push 0, .take input] =
      some ⟨served, goesOn, box.requests ++ [request], [], [],
        box.outcomes ++ [(box.requests.length, .replied reply)],
        box.log ++ [.handled box.requests.length request input reply]⟩ := by
  cases goesOn <;>
    simp [Machine.run, machine, Mailbox.answer, Mailbox.settle, room, handled, alive, idle]

theorem step_acted {own : Own} {state : State} (alive : box.alive = true)
    (acted : actor.act box.state own = (state, true)) :
    (actor.machine capacity).step box (.act own) = some (box.acted state own) := by
  simp [machine, Mailbox.settle, alive, acted]

theorem mem_calls_iff {call : Nat} : call ∈ box.calls ↔
    ∃ request input reply, .handled call request input reply ∈ box.log := by
  rw [Mailbox.calls, List.mem_filterMap]
  constructor
  · rintro ⟨entry, member, same⟩
    cases entry with
    | handled other request input reply =>
        cases same
        exact ⟨request, input, reply, member⟩
    | acted own => cases same
  · rintro ⟨request, input, reply, member⟩
    exact ⟨_, member, rfl⟩

theorem Explained.fresh (state : State) :
    actor.Explained state (.fresh state : Mailbox State Request Reply Input Own) where
  performs := .start
  once := List.nodup_nil
  answered call reply := by simp [Mailbox.fresh, Mailbox.Answered]
  asked call request input reply member := by simp [Mailbox.fresh] at member

theorem Explained.moved (explained : actor.Explained start box)
    (accounted : Accounted capacity box) (moved : Moved actor capacity box event next) :
    actor.Explained start next := by
  cases moved with
  | call =>
      refine ⟨explained.performs, explained.once, explained.answered,
        fun call other input reply member => ?_⟩
      have asked := explained.asked call other input reply member
      rw [List.getElem?_append_left (List.getElem?_eq_some_iff.mp asked).1]
      exact asked
  | push _ _ _ =>
      exact ⟨explained.performs, explained.once, explained.answered, explained.asked⟩
  | refuse _ _ =>
      refine ⟨explained.performs, explained.once, fun call reply => ?_, explained.asked⟩
      rw [← explained.answered]
      simp [Mailbox.Answered]
  | @take input call request queue reply state goesOn alive queued handled =>
      have asked : box.requests[call]? = some request :=
        accounted.queued (call, request) (by rw [queued]; exact List.mem_cons_self)
      have performs := alive ▸ explained.performs
      have fresh : call ∉ box.calls := by
        intro early
        obtain ⟨request, input, reply, member⟩ := mem_calls_iff.mp early
        have answered := (explained.answered call reply).mpr ⟨request, input, member⟩
        have once := accounted.once.nodup_iff.mpr List.nodup_range
        rw [Mailbox.known, queued, List.nodup_append] at once
        exact once.2.2 call (by simp) call (List.mem_map.mpr ⟨_, answered, rfl⟩) rfl
      refine ⟨?_, ?_, fun other otherReply => ?_, ?_⟩
      · have does : actor.Does box.state (.handled call request input reply) state goesOn := handled
        simpa [Mailbox.answer, alive] using performs.does does
      · rw [Mailbox.calls, Mailbox.settle_log, Mailbox.answer, List.filterMap_append]
        exact List.nodup_append_comm.mpr (List.nodup_cons.mpr ⟨fresh, explained.once⟩)
      · rw [Mailbox.answered_settle, Mailbox.settle_log, Mailbox.Answered, Mailbox.answer]
        dsimp only
        rw [List.mem_append, ← Mailbox.Answered, explained.answered]
        simp only [List.mem_append, List.mem_singleton, Prod.mk.injEq, Outcome.replied.injEq,
          Entry.handled.injEq]
        constructor
        · rintro (⟨asked, drawn, member⟩ | ⟨rfl, rfl⟩)
          · exact ⟨asked, drawn, .inl member⟩
          · exact ⟨request, input, .inr ⟨rfl, rfl, rfl, rfl⟩⟩
        · rintro ⟨asked, drawn, member | ⟨rfl, -, -, rfl⟩⟩
          · exact .inl ⟨asked, drawn, member⟩
          · exact .inr ⟨rfl, rfl⟩
      · intro other otherRequest otherInput otherReply member
        rw [Mailbox.settle_log, Mailbox.answer] at member
        rw [Mailbox.settle_requests, Mailbox.answer]
        rcases List.mem_append.mp member with earlier | last
        · exact explained.asked _ _ _ _ earlier
        · cases List.mem_singleton.mp last
          exact asked
  | @act own state goesOn alive acted =>
      have performs := alive ▸ explained.performs
      refine ⟨?_, ?_, fun call reply => ?_, fun call request input reply member => ?_⟩
      · have does : actor.Does box.state (.acted own) state goesOn := acted
        simpa [Mailbox.acted, alive] using performs.does does
      · rw [Mailbox.calls, Mailbox.settle_log, Mailbox.acted, List.filterMap_append]
        rw [List.filterMap_cons_none rfl, List.filterMap_nil, List.append_nil]
        exact explained.once
      · rw [Mailbox.answered_settle, Mailbox.settle_log]
        simpa [Mailbox.acted, Mailbox.Answered] using explained.answered call reply
      · rw [Mailbox.settle_log, Mailbox.acted] at member
        rw [Mailbox.settle_requests, Mailbox.acted]
        refine explained.asked call request input reply ?_
        simpa using member

theorem Accounted.fresh (capacity : Nat) (state : State) :
    Accounted capacity (.fresh state : Mailbox State Request Reply Input Own) where
  once := List.Perm.refl _
  sent _ member := by cases member
  queued _ member := by cases member
  bounded := Nat.zero_le _
  closed _ := rfl

/-- Taking one sender out and putting it elsewhere moves no other call. -/
theorem perm_known_of_eraseIdx {sending : List (Nat × Request)} {index : Nat}
    {sent : Nat × Request} (found : sending[index]? = some sent) (rest : List Nat) :
    ((sending.eraseIdx index).map Prod.fst ++ (sent.1 :: rest)).Perm
      (sending.map Prod.fst ++ rest) := by
  obtain ⟨bound, same⟩ := List.getElem?_eq_some_iff.mp found
  have whole := (List.getElem_cons_eraseIdx_perm bound).map Prod.fst
  rw [same, List.map_cons] at whole
  exact List.perm_middle.trans (whole.append_right rest)

theorem Accounted.settle (accounted : Accounted capacity box) (goesOn : Bool) :
    Accounted capacity (box.settle goesOn) where
  once := by
    rw [Mailbox.settle_requests]
    exact (Mailbox.known_settle goesOn).trans accounted.once
  sent := by
    rw [Mailbox.settle_requests, Mailbox.settle_sending]
    exact accounted.sent
  queued sent member := by
    rw [Mailbox.settle_requests]
    exact accounted.queued sent (Mailbox.queue_settle_subset goesOn member)
  bounded := by
    cases goesOn with
    | true => exact accounted.bounded
    | false => exact Nat.zero_le _
  closed closed := by
    cases goesOn with
    | true => exact accounted.closed closed
    | false => rfl

theorem asked_append {requests : List Request} {call : Nat} {request : Request} (last : Request)
    (asked : requests[call]? = some request) : (requests ++ [last])[call]? = some request := by
  rw [List.getElem?_append_left (List.getElem?_eq_some_iff.mp asked).1]
  exact asked

theorem Accounted.moved (accounted : Accounted capacity box)
    (moved : Moved actor capacity box event next) : Accounted capacity next := by
  have once := accounted.once
  cases moved with
  | @call request =>
      refine ⟨?_, fun sent member => ?_, fun sent member => ?_, accounted.bounded, accounted.closed⟩
      · simp only [Mailbox.known, List.map_append, List.map_cons, List.map_nil, List.length_append,
          List.length_singleton, List.range_succ, List.append_assoc, List.singleton_append] at once ⊢
        exact List.perm_middle.trans ((once.cons _).trans (List.perm_append_singleton _ _).symm)
      · rcases List.mem_append.mp member with earlier | last
        · exact asked_append request (accounted.sent sent earlier)
        · cases List.mem_singleton.mp last
          exact List.getElem?_concat_length
      · exact asked_append request (accounted.queued sent member)
  | @push index sent alive room found =>
      refine ⟨?_, fun other member => accounted.sent other (List.mem_of_mem_eraseIdx member),
        fun other member => ?_, ?_, fun closed => ?_⟩
      · simp only [Mailbox.known, List.map_append, List.map_cons, List.map_nil, List.append_assoc,
          List.singleton_append] at once ⊢
        refine List.Perm.trans (List.Perm.append_left _ List.perm_middle) ?_
        exact (perm_known_of_eraseIdx found _).trans once
      · rcases List.mem_append.mp member with earlier | last
        · exact accounted.queued other earlier
        · rw [List.mem_singleton.mp last]
          exact accounted.sent sent (List.mem_of_getElem? found)
      · rw [List.length_append, List.length_singleton]
        exact room
      · cases alive.symm.trans closed
  | @refuse index sent closed found =>
      refine ⟨?_, fun other member => accounted.sent other (List.mem_of_mem_eraseIdx member),
        accounted.queued, accounted.bounded, accounted.closed⟩
      simp only [Mailbox.known, List.map_append, List.map_cons, List.map_nil, List.append_assoc]
        at once ⊢
      refine List.Perm.trans (List.Perm.append_left _ ?_)
        ((perm_known_of_eraseIdx found _).trans once)
      rw [← List.append_assoc]
      exact List.perm_append_singleton _ _
  | @take input call request queue reply state goesOn alive queued handled =>
      suffices answered : Accounted capacity (box.answer state call request input reply queue) from
        answered.settle goesOn
      refine ⟨?_, accounted.sent, fun sent member => ?_, ?_, fun closed => ?_⟩
      · simp only [Mailbox.known, Mailbox.answer, queued, List.map_append, List.map_cons,
          List.map_nil, List.append_assoc] at once ⊢
        refine List.Perm.trans (List.Perm.append_left _ ?_) once
        rw [← List.append_assoc]
        exact List.perm_append_singleton _ _
      · exact accounted.queued sent (queued ▸ List.mem_cons_of_mem _ member)
      · have bounded := accounted.bounded
        rw [queued, List.length_cons] at bounded
        exact (Nat.le_succ _).trans bounded
      · cases alive.symm.trans closed
  | @act own state goesOn alive acted =>
      suffices same : Accounted capacity (box.acted state own) from same.settle goesOn
      exact ⟨once, accounted.sent, accounted.queued, accounted.bounded, accounted.closed⟩

/-- What the task has done is never undone, and a task that has returned does nothing more. -/
structure Follows (box next : Mailbox State Request Reply Input Own) : Prop where
  log : box.log <+: next.log
  requests : box.requests <+: next.requests
  ended : box.alive = false → next.alive = false ∧ next.state = box.state ∧ next.log = box.log

theorem Follows.refl (box : Mailbox State Request Reply Input Own) : Follows box box :=
  ⟨List.prefix_rfl, List.prefix_rfl, fun ended => ⟨ended, rfl, rfl⟩⟩

theorem Follows.trans {last : Mailbox State Request Reply Input Own} (first : Follows box next)
    (second : Follows next last) : Follows box last where
  log := first.log.trans second.log
  requests := first.requests.trans second.requests
  ended ended := by
    obtain ⟨gone, state, log⟩ := first.ended ended
    obtain ⟨still, sameState, sameLog⟩ := second.ended gone
    exact ⟨still, sameState.trans state, sameLog.trans log⟩

theorem Moved.follows (moved : Moved actor capacity box event next) : Follows box next := by
  cases moved with
  | call => exact ⟨List.prefix_rfl, List.prefix_append _ _, fun ended => ⟨ended, rfl, rfl⟩⟩
  | push alive _ _ => exact ⟨List.prefix_rfl, List.prefix_rfl, fun ended => ⟨ended, rfl, rfl⟩⟩
  | refuse _ _ => exact ⟨List.prefix_rfl, List.prefix_rfl, fun ended => ⟨ended, rfl, rfl⟩⟩
  | take alive _ _ =>
      refine ⟨?_, ?_, fun ended => ?_⟩
      · rw [Mailbox.settle_log]
        exact List.prefix_append _ _
      · rw [Mailbox.settle_requests]
        exact List.prefix_rfl
      · cases alive.symm.trans ended
  | act alive _ =>
      refine ⟨?_, ?_, fun ended => ?_⟩
      · rw [Mailbox.settle_log]
        exact List.prefix_append _ _
      · rw [Mailbox.settle_requests]
        exact List.prefix_rfl
      · cases alive.symm.trans ended

theorem follows_of_run {final : Mailbox State Request Reply Input Own}
    {events : List (Event Request Input Own)}
    (ran : (actor.machine capacity).run box events = some final) : Follows box final := by
  refine (actor.machine capacity).run_invariant (fun middle event next follows stepped => ?_)
    (Follows.refl box) ran
  exact follows.trans (moved_of_step stepped).follows

/-- Both hold in every state that a run reaches. -/
theorem explained_of_run {final : Mailbox State Request Reply Input Own}
    {events : List (Event Request Input Own)}
    (ran : (actor.machine capacity).run (.fresh start) events = some final) :
    actor.Explained start final ∧ Accounted capacity final := by
  have preserved : ∀ (box : Mailbox State Request Reply Input Own) event next,
      actor.Explained start box ∧ Accounted capacity box →
      (actor.machine capacity).step box event = some next →
      actor.Explained start next ∧ Accounted capacity next := by
    intro box event next ⟨explained, accounted⟩ stepped
    have moved := moved_of_step stepped
    exact ⟨explained.moved accounted moved, accounted.moved moved⟩
  exact (actor.machine capacity).run_invariant preserved
    ⟨Explained.fresh start, Accounted.fresh capacity start⟩ ran

/-- Where each entry is a piece of another machine's run, a whole log is a run of it. -/
theorem Performs.simulates {View Move : Type} {spec : Machine View Move} {view : State → View}
    {moves : Entry Request Reply Input Own → List Move}
    (simulated : ∀ state entry next goesOn, actor.Does state entry next goesOn →
      spec.run (view state) (moves entry) = some (view next))
    {log : List (Entry Request Reply Input Own)} {state : State} {alive : Bool}
    (performs : actor.Performs start log state alive) :
    spec.run (view start) (log.flatMap moves) = some (view state) := by
  induction performs with
  | start => rfl
  | does earlier does ih =>
      rw [List.flatMap_append, List.flatMap_singleton]
      exact (spec.run_append_iff).mpr ⟨_, ih, simulated _ _ _ _ does⟩

/-- A relation between the log and the state that every entry keeps. -/
theorem Performs.history {relates : List (Entry Request Reply Input Own) → State → Prop}
    (kept : ∀ log state entry next goesOn, relates log state →
      actor.Does state entry next goesOn → relates (log ++ [entry]) next)
    {log : List (Entry Request Reply Input Own)} {state : State} {alive : Bool}
    (performs : actor.Performs start log state alive) (begins : relates [] start) :
    relates log state := by
  induction performs with
  | start => exact begins
  | does earlier does ih => exact kept _ _ _ _ _ ih does

/-- What every entry keeps, a whole log keeps. -/
theorem Performs.invariant {holds : State → Prop}
    (kept : ∀ state entry next goesOn, holds state → actor.Does state entry next goesOn → holds next)
    {log : List (Entry Request Reply Input Own)} {state : State} {alive : Bool}
    (performs : actor.Performs start log state alive) (begins : holds start) : holds state :=
  performs.history (fun _ state entry next goesOn => kept state entry next goesOn) begins

/-- What one entry brings about and every entry keeps is there once that entry is logged. -/
theorem Performs.established {holds made : State → Prop}
    {entry : Entry Request Reply Input Own}
    (kept : ∀ state other next goesOn, holds state → actor.Does state other next goesOn → holds next)
    (makes : ∀ state next goesOn, holds state → actor.Does state entry next goesOn → made next)
    (stays : ∀ state other next goesOn, made state → actor.Does state other next goesOn → made next)
    {log : List (Entry Request Reply Input Own)} {state : State} {alive : Bool}
    (performs : actor.Performs start log state alive) (begins : holds start) (logged : entry ∈ log) :
    made state := by
  induction performs with
  | start => cases logged
  | @does log middle other next goesOn earlier does ih =>
      rcases List.mem_append.mp logged with before | last
      · exact stays _ _ _ _ (ih before) does
      · cases List.mem_singleton.mp last
        exact makes _ _ _ (earlier.invariant kept begins) does

/-- A log can be cut anywhere. The task was still going where something follows. -/
theorem Performs.cut {front back : List (Entry Request Reply Input Own)} {state : State}
    {alive : Bool} (performs : actor.Performs start (front ++ back) state alive) :
    ∃ middle going, actor.Performs start front middle going ∧
      (going = true ∨ back = [] ∧ going = alive) ∧
      (going = true → actor.Performs middle back state alive) := by
  generalize whole : front ++ back = log at performs
  induction performs generalizing back with
  | start =>
      obtain ⟨rfl, rfl⟩ := List.append_eq_nil_iff.mp whole
      exact ⟨start, true, .start, .inl rfl, fun _ => .start⟩
  | @does log middle entry next goesOn earlier does ih =>
      rcases List.eq_nil_or_concat back with rfl | ⟨rest, last, rfl⟩
      · rw [List.append_nil] at whole
        subst whole
        refine ⟨next, goesOn, earlier.does does, .inr ⟨rfl, rfl⟩, fun going => ?_⟩
        rw [going]
        exact .start
      · rw [List.concat_eq_append, ← List.append_assoc] at whole
        obtain ⟨same, ends⟩ := List.append_inj' whole rfl
        cases List.singleton_inj.mp ends
        obtain ⟨reached, going, before, goes, onward⟩ := ih same
        have still : going = true := goes.elim id fun both => both.2
        refine ⟨reached, going, before, .inl still, fun _ => ?_⟩
        rw [List.concat_eq_append]
        exact (onward still).does does

theorem Performs.last {log : List (Entry Request Reply Input Own)}
    {entry : Entry Request Reply Input Own} {state : State} {alive : Bool}
    (performs : actor.Performs start (log ++ [entry]) state alive) :
    ∃ before, actor.Performs start log before true ∧ actor.Does before entry state alive := by
  generalize whole : log ++ [entry] = full at performs
  cases performs with
  | start => simp at whole
  | does earlier does =>
      obtain ⟨same, ends⟩ := List.append_inj' whole rfl
      cases List.singleton_inj.mp ends
      subst same
      exact ⟨_, earlier, does⟩

/-- Where an entry stands in the log, the task did it and then the rest, if it went on. -/
theorem Performs.at_entry {front back : List (Entry Request Reply Input Own)}
    {entry : Entry Request Reply Input Own} {state : State} {alive : Bool}
    (performs : actor.Performs start (front ++ entry :: back) state alive) :
    ∃ before after goesOn, actor.Performs start front before true ∧
      actor.Does before entry after goesOn ∧ (goesOn = true ∨ back = [] ∧ goesOn = alive) := by
  rw [List.append_cons] at performs
  obtain ⟨after, goesOn, upTo, goes, -⟩ := performs.cut
  obtain ⟨before, earlier, does⟩ := upTo.last
  exact ⟨before, after, goesOn, earlier, does, goes⟩

/-- The first call is handled before the second. -/
def Precedes (box : Mailbox State Request Reply Input Own) (first second : Nat) : Prop :=
  ∃ front back, box.log = front ++ back ∧ first ∈ front.filterMap Entry.call? ∧
    second ∈ back.filterMap Entry.call?

/-- A call that was answered before another one began is handled before it. -/
theorem precedes_of_run {middle final : Mailbox State Request Reply Input Own}
    {front back : List (Event Request Input Own)} {first second : Nat} {reply : Reply}
    (before : (actor.machine capacity).run (.fresh start) front = some middle)
    (after : (actor.machine capacity).run middle back = some final)
    (answered : middle.Answered first reply) (later : middle.requests.length ≤ second)
    (handled : second ∈ final.calls) : Precedes final first second := by
  obtain ⟨explained, _⟩ := explained_of_run before
  obtain ⟨rest, whole⟩ := (follows_of_run after).log
  obtain ⟨request, input, member⟩ := (explained.answered first reply).mp answered
  refine ⟨middle.log, rest, whole.symm, mem_calls_iff.mpr ⟨request, input, reply, member⟩, ?_⟩
  rw [Mailbox.calls, ← whole, List.filterMap_append, List.mem_append] at handled
  refine handled.resolve_left fun early => ?_
  obtain ⟨request, input, reply, member⟩ := mem_calls_iff.mp early
  have asked := explained.asked second request input reply member
  exact absurd (List.getElem?_eq_some_iff.mp asked).1 (Nat.not_lt.mpr later)

end Actor

end Peerdup.Foundation
