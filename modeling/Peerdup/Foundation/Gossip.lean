import Mathlib.Logic.Relation
import Mathlib.Order.ConditionallyCompleteLattice.Basic
import Mathlib.Order.CompletePartialOrder

/-!
# Gossip of growing values

Peers hold values of a lattice. A speaker sends all it holds, and whoever takes a message joins
its value in, whenever and how often it comes. A peer that has heard every speaker once holds
what they held, all of it and nothing else.
-/

set_option autoImplicit false

namespace Peerdup.Foundation

open Relation

/-- What each peer holds, and what it has sent, oldest first. A message about something else
is `none`. -/
structure Gossip (Peer Value : Type*) where
  held : Peer → Value
  sent : Peer → List (Option Value)

namespace Gossip

variable {Peer Value : Type*} [CompleteLattice Value]

/-- Values grow by themselves. -/
structure Adds (before after : Gossip Peer Value) : Prop where
  held : ∀ peer, before.held peer ≤ after.held peer
  sent : after.sent = before.sent

/-- A value is sent by a speaker, and is what the speaker holds. -/
structure Sends (speakers : Set Peer) (before after : Gossip Peer Value) : Prop where
  held : after.held = before.held
  sent : ∀ peer, ∃ messages, after.sent peer = before.sent peer ++ messages ∧
    ∀ value, some value ∈ messages → peer ∈ speakers ∧ value = before.held peer

/-- The peer joins in the value that the source sent at the index. -/
structure Takes (peer source : Peer) (index : ℕ) (before after : Gossip Peer Value) : Prop where
  joined : ∃ value, (before.sent source)[index]? = some (some value) ∧
    after.held peer = before.held peer ⊔ value
  others : ∀ other, other ≠ peer → after.held other = before.held other
  sent : after.sent = before.sent

/-- Values move without growing by themselves. -/
inductive Spreads (speakers : Set Peer) (before after : Gossip Peer Value) : Prop where
  | sends : Sends speakers before after → Spreads speakers before after
  | takes {peer source index} : Takes peer source index before after →
      Spreads speakers before after

inductive Grows (speakers : Set Peer) (before after : Gossip Peer Value) : Prop where
  | adds : Adds before after → Grows speakers before after
  | spreads : Spreads speakers before after → Grows speakers before after

/-- From the first moment to the second, the peer takes a value that the source sends
in between. -/
def Hears (speakers : Set Peer) (start final : Gossip Peer Value) (peer source : Peer) : Prop :=
  ∃ index before after, ReflTransGen (Spreads speakers) start before ∧
    (start.sent source).length ≤ index ∧ Takes peer source index before after ∧
    ReflTransGen (Spreads speakers) after final

/-- What is on its way is held by the speaker that sent it. -/
def Sound (speakers : Set Peer) (gossip : Gossip Peer Value) : Prop :=
  ∀ source value, some value ∈ gossip.sent source → source ∈ speakers ∧ value ≤ gossip.held source

variable {speakers : Set Peer} {start before after final : Gossip Peer Value}

theorem Takes.held_le {peer source : Peer} {index : ℕ}
    (takes : Takes peer source index before after) (other : Peer) :
    before.held other ≤ after.held other := by
  by_cases same : other = peer
  · obtain ⟨value, _, joined⟩ := takes.joined
    rw [same, joined]
    exact le_sup_left
  · exact (takes.others other same).ge

theorem Grows.held_le (grows : Grows speakers before after) (peer : Peer) :
    before.held peer ≤ after.held peer := by
  cases grows with
  | adds adds => exact adds.held peer
  | spreads spreads =>
      cases spreads with
      | sends sends => exact (congrFun sends.held peer).ge
      | takes takes => exact takes.held_le peer

/-- All that a step adds to the messages. -/
theorem Grows.sent_append (grows : Grows speakers before after) (source : Peer) :
    ∃ messages, after.sent source = before.sent source ++ messages ∧
      ∀ value, some value ∈ messages → source ∈ speakers ∧ value = before.held source := by
  have silent : after.sent = before.sent → ∃ messages,
      after.sent source = before.sent source ++ messages ∧
        ∀ value, some value ∈ messages → source ∈ speakers ∧ value = before.held source := by
    intro same
    exact ⟨[], by rw [same, List.append_nil], fun _ contra => by cases contra⟩
  cases grows with
  | adds adds => exact silent adds.sent
  | spreads spreads =>
      cases spreads with
      | sends sends => exact sends.sent source
      | takes takes => exact silent takes.sent

theorem Sound.grows (sound : Sound speakers before) (grows : Grows speakers before after) :
    Sound speakers after := by
  intro source value member
  obtain ⟨messages, sent, own⟩ := grows.sent_append source
  rw [sent, List.mem_append] at member
  rcases member with old | new
  · exact ⟨(sound source value old).1, (sound source value old).2.trans (grows.held_le source)⟩
  · obtain ⟨speaks, same⟩ := own value new
    exact ⟨speaks, same ▸ grows.held_le source⟩

theorem Sound.run (sound : Sound speakers start)
    (ran : ReflTransGen (Grows speakers) start final) : Sound speakers final := by
  induction ran with
  | refl => exact sound
  | tail _ grows ih => exact ih.grows grows

theorem held_le_of_run (ran : ReflTransGen (Grows speakers) start final) (peer : Peer) :
    start.held peer ≤ final.held peer := by
  induction ran with
  | refl => exact le_rfl
  | tail _ grows ih => exact ih.trans (grows.held_le peer)

theorem grows_of_spreads (ran : ReflTransGen (Spreads speakers) start final) :
    ReflTransGen (Grows speakers) start final :=
  ReflTransGen.mono (fun _ _ spreads => Grows.spreads spreads) _ _ ran

omit [CompleteLattice Value] in
theorem getElem?_of_append {messages new : List (Option Value)} {index : ℕ} {value : Value}
    (found : (messages ++ new)[index]? = some (some value)) :
    messages[index]? = some (some value) ∨ messages.length ≤ index ∧ some value ∈ new := by
  rcases Nat.lt_or_ge index messages.length with old | late
  · rw [List.getElem?_append_left old] at found
    exact .inl found
  · rw [List.getElem?_append_right late] at found
    exact .inr ⟨late, List.mem_of_getElem? found⟩

/-- A value sent since then includes what its speaker held then. -/
theorem held_le_of_sent (ran : ReflTransGen (Grows speakers) start final) {source : Peer}
    {index : ℕ} {value : Value} (late : (start.sent source).length ≤ index)
    (found : (final.sent source)[index]? = some (some value)) : start.held source ≤ value := by
  induction ran with
  | refl =>
      rw [List.getElem?_eq_none late] at found
      cases found
  | @tail middle final ran grows ih =>
      obtain ⟨messages, sent, own⟩ := grows.sent_append source
      rw [sent] at found
      rcases getElem?_of_append found with old | ⟨_, new⟩
      · exact ih old
      · rw [(own value new).2]
        exact held_le_of_run ran source

/-- As long as values only spread, no peer comes to hold more than it held itself and what the
speakers held, and no more than the latter is on its way. -/
theorem held_le_of_spreads (sound : Sound speakers start)
    (ran : ReflTransGen (Spreads speakers) start final) :
    (∀ peer, final.held peer ≤ start.held peer ⊔ ⨆ source ∈ speakers, start.held source) ∧
      ∀ source value, some value ∈ final.sent source →
        value ≤ ⨆ source ∈ speakers, start.held source := by
  have spoken : ∀ source ∈ speakers,
      start.held source ≤ ⨆ source ∈ speakers, start.held source :=
    fun source speaks => le_biSup start.held speaks
  induction ran with
  | refl =>
      refine ⟨fun peer => le_sup_left, fun source value member => ?_⟩
      obtain ⟨speaks, held⟩ := sound source value member
      exact held.trans (spoken source speaks)
  | @tail middle final _ spreads ih =>
      obtain ⟨within, carried⟩ := ih
      cases spreads with
      | sends sends =>
          refine ⟨fun peer => sends.held ▸ within peer, fun source value member => ?_⟩
          obtain ⟨messages, sent, own⟩ := sends.sent source
          rw [sent, List.mem_append] at member
          rcases member with old | new
          · exact carried source value old
          · obtain ⟨speaks, same⟩ := own value new
            rw [same]
            exact (within source).trans (sup_le (spoken source speaks) le_rfl)
      | @takes peer source index takes =>
          constructor
          · intro other
            by_cases same : other = peer
            · obtain ⟨value, found, joined⟩ := takes.joined
              rw [same, joined]
              have small := carried source value (List.mem_of_getElem? found)
              exact sup_le (within peer) (small.trans le_sup_right)
            · rw [takes.others other same]
              exact within other
          · rw [takes.sent]
            exact carried

theorem Hears.held_le {peer source : Peer} (hears : Hears speakers start final peer source) :
    start.held source ≤ final.held peer := by
  obtain ⟨index, before, after, ran, late, takes, rest⟩ := hears
  obtain ⟨value, found, joined⟩ := takes.joined
  calc start.held source
      ≤ value := held_le_of_sent (grows_of_spreads ran) late found
    _ ≤ after.held peer := joined ▸ le_sup_right
    _ ≤ final.held peer := held_le_of_run (grows_of_spreads rest) peer

/-- A peer that hears every other speaker ends up with what it held and what they held. -/
theorem held_of_hears (sound : Sound speakers start)
    (ran : ReflTransGen (Spreads speakers) start final) {peer : Peer}
    (hears : ∀ source ∈ speakers, source ≠ peer → Hears speakers start final peer source) :
    final.held peer = start.held peer ⊔ ⨆ source ∈ speakers, start.held source := by
  refine le_antisymm ((held_le_of_spreads sound ran).1 peer) (sup_le ?_ (iSup₂_le ?_))
  · exact held_le_of_run (grows_of_spreads ran) peer
  · intro source speaks
    by_cases same : source = peer
    · exact same ▸ held_le_of_run (grows_of_spreads ran) source
    · exact (hears source speaks same).held_le

end Gossip

end Peerdup.Foundation
