import Mathlib.Data.List.Perm.Subperm
import Vng.Lib.Machine
import Vng.Lib.OrderedMap

/-!
# The packets of `net::paho::Channel`

`publish` copies the payload into a packet of its own, which stays in `_packets` under the token
that the library returns until the delivery of that token has been executed. The library calls from
its own thread; what it says is scheduled and executed by the application.
-/

namespace Vng
namespace Paho

/-- Packets are known by the order in which they were made. -/
structure State where
  /-- `_packets`. -/
  packets : List (ℤ × ℕ)
  made : ℕ
  deleted : List ℕ
  /-- The tokens of the deliveries that are waiting. -/
  scheduled : List ℤ
  released : Bool
deriving DecidableEq, Repr

def start : State := ⟨[], 0, [], [], false⟩

inductive Event
  /-- With the token from `MQTTClient_publishMessage`, if it does not fail. -/
  | publish (token : Option ℤ)
  /-- `deliveryComplete`; the application may refuse the command. -/
  | deliveryComplete (token : ℤ) (accepted : Bool)
  /-- The first command that is waiting. -/
  | execute
  | release
deriving DecidableEq, Repr

/-- `Private::publish`: a packet is made, and kept under its token or deleted at once. -/
def publish (s : State) : Option ℤ → State
  | none => { s with made := s.made + 1, deleted := s.deleted ++ [s.made] }
  | some token => { s with made := s.made + 1, packets := OrderedMap.insert token s.made s.packets }

/-- `Private::delivery`: the packet of the token is deleted, if there is one. -/
def delivery (s : State) (token : ℤ) : State :=
  match s.packets.find? (fun e => e.1 = token) with
  | none => s
  | some found =>
    { s with packets := OrderedMap.erase token s.packets, deleted := s.deleted ++ [found.2] }

/-- `Private::release`: every packet that is left is deleted. -/
def release (s : State) : State :=
  { s with
    packets := [], deleted := s.deleted ++ s.packets.map Prod.snd, released := true }

/-- Nothing of the channel is called or executed after `release`. -/
def step (s : State) : Event → Option State
  | .publish token => if s.released then none else some (publish s token)
  | .deliveryComplete token accepted =>
    if s.released then none
    else if accepted then some { s with scheduled := s.scheduled ++ [token] }
    else some s
  | .execute =>
    if s.released then none
    else
      match s.scheduled with
      | [] => none
      | token :: scheduled => some (delivery { s with scheduled := scheduled } token)
  | .release => if s.released then none else some (release s)

/-- A token is returned while a packet is still kept under it. -/
def Reuses (s : State) : Event → Prop
  | .publish (some token) => ∃ e ∈ s.packets, e.1 = token
  | _ => False

instance (s : State) : (e : Event) → Decidable (Reuses s e)
  | .publish (some token) => inferInstanceAs (Decidable (∃ e ∈ s.packets, e.1 = token))
  | .publish none | .deliveryComplete _ _ | .execute | .release => inferInstanceAs (Decidable False)

/-! ## What becomes of a packet -/

/-- The packets that have been deleted or will be. -/
def State.known (s : State) : List ℕ := s.deleted ++ s.packets.map Prod.snd

/-- No packet is deleted twice or kept after that. -/
structure Sound (s : State) : Prop where
  sorted : OrderedMap.Sorted s.packets
  nodup : s.known.Nodup
  lt_made : ∀ k ∈ s.known, k < s.made
  released_nil : s.released = true → s.packets = []

section Step

variable {s s' : State} {e : Event} {token : ℤ}

/-- A new channel has made nothing. -/
lemma sound_start : Sound start :=
  ⟨List.Pairwise.nil, List.nodup_nil, List.forall_mem_nil _, fun _ => rfl⟩

/-- What a step does to the packets that are known: it makes one or not, and may lose one. -/
inductive Accounts (s s' : State) (reuses : Prop) : Prop
  | kept (known : s'.known.Perm s.known) (made : s'.made = s.made) (not_reuses : ¬ reuses)
  | new (known : s'.known.Perm (s.made :: s.known)) (made : s'.made = s.made + 1)
      (not_reuses : ¬ reuses)
  | lost (old : ℕ) (rest : List ℕ) (before : s.known.Perm (old :: rest))
      (known : s'.known.Perm (s.made :: rest)) (made : s'.made = s.made + 1) (reuses : reuses)

/-- A published packet is new; it loses the packet that was kept under its token. -/
lemma accounts_publish (h : Sound s) (token : Option ℤ) :
    Accounts s (publish s token) (Reuses s (.publish token)) := by
  cases token with
  -- `publishMessage` failed, and the packet is deleted at once
  | none =>
    refine .new ?_ rfl id
    change (s.deleted ++ [s.made] ++ s.packets.map Prod.snd).Perm _
    rw [List.append_assoc, List.singleton_append]
    exact List.perm_middle
  -- the new packet stands between those with smaller and those with greater tokens
  | some token =>
    obtain ⟨front, behind, hinsert, hfront, hbehind, hpackets⟩ :=
      OrderedMap.exists_insert_eq h.sorted token s.made
    have hknown : (publish s (some token)).known =
        (s.deleted ++ front.map Prod.snd) ++ s.made :: behind.map Prod.snd := by
      change s.deleted ++ (OrderedMap.insert token s.made s.packets).map Prod.snd = _
      rw [hinsert, List.map_append, List.map_cons, List.append_assoc]
    rcases hpackets with hpackets | ⟨old, hpackets⟩
    -- no packet has this token
    · have hbefore : s.known = (s.deleted ++ front.map Prod.snd) ++ behind.map Prod.snd := by
        rw [State.known, hpackets, List.map_append, List.append_assoc]
      refine .new ?_ rfl ?_
      · rw [hknown, hbefore]
        exact List.perm_middle
      · rintro ⟨e, he, hkey⟩
        rw [hpackets, List.mem_append] at he
        rcases he with he | he
        · exact (hfront e he).ne hkey
        · exact (hbehind e he).ne' hkey
    -- an old packet is overwritten, so nobody knows it any more
    · have hbefore : s.known = (s.deleted ++ front.map Prod.snd) ++ old :: behind.map Prod.snd := by
        rw [State.known, hpackets, List.map_append, List.map_cons, List.append_assoc]
      refine .lost old ((s.deleted ++ front.map Prod.snd) ++ behind.map Prod.snd) ?_ ?_ rfl ?_
      · rw [hbefore]
        exact List.perm_middle
      · rw [hknown]
        exact List.perm_middle
      · exact ⟨(token, old), hpackets ▸ List.mem_append_right _ List.mem_cons_self, rfl⟩

/-- A delivery moves one packet from the kept to the deleted ones. -/
lemma known_delivery (h : OrderedMap.Sorted s.packets) (token : ℤ) :
    (delivery s token).known.Perm s.known ∧ OrderedMap.Sorted (delivery s token).packets ∧
      (delivery s token).made = s.made ∧ (delivery s token).released = s.released := by
  rw [delivery]
  cases hfind : s.packets.find? (fun e => e.1 = token) with
  -- a token that is not kept
  | none => exact ⟨List.Perm.refl _, h, rfl, rfl⟩
  | some found =>
    obtain ⟨key, packet⟩ := found
    have hkey := List.find?_some hfind
    obtain rfl : key = token := of_decide_eq_true hkey
    obtain ⟨front, behind, hpackets, herase⟩ :=
      OrderedMap.exists_erase_eq h (List.mem_of_find?_eq_some hfind)
    -- the packet moves over, and the others stay where they are
    refine ⟨?_, h.erase key, rfl, rfl⟩
    change (s.deleted ++ [packet] ++ (OrderedMap.erase key s.packets).map Prod.snd).Perm
      (s.deleted ++ s.packets.map Prod.snd)
    rw [herase, hpackets, List.map_append, List.map_append, List.map_cons, List.append_assoc,
      List.singleton_append]
    exact List.Perm.append_left _ List.perm_middle.symm

/-- One event: what becomes of the packets, that they stay sorted, and that none is kept after
`release`. -/
lemma step_spec (h : Sound s) (hstep : step s e = some s') :
    Accounts s s' (Reuses s e) ∧ OrderedMap.Sorted s'.packets ∧
      (s'.released = true → s'.packets = []) := by
  cases e with
  | publish token =>
    rw [step] at hstep
    split_ifs at hstep with hreleased
    obtain rfl := Option.some.inj hstep
    refine ⟨accounts_publish h token, ?_, ?_⟩
    · cases token with
      | none => exact h.sorted
      | some token => exact h.sorted.insert token s.made
    · intro hreleased'
      cases token with
      | none => exact absurd hreleased' hreleased
      | some token => exact absurd hreleased' hreleased
  | deliveryComplete token accepted =>
    rw [step] at hstep
    split_ifs at hstep with hreleased haccepted
    · obtain rfl := Option.some.inj hstep
      exact ⟨.kept (List.Perm.refl _) rfl id, h.sorted, fun hr => absurd hr hreleased⟩
    · obtain rfl := Option.some.inj hstep
      exact ⟨.kept (List.Perm.refl _) rfl id, h.sorted, fun hr => absurd hr hreleased⟩
  | execute =>
    rw [step] at hstep
    split_ifs at hstep with hreleased
    -- the first command that is waiting is executed
    cases hscheduled : s.scheduled with
    | nil =>
      rw [hscheduled] at hstep
      cases hstep
    | cons token scheduled =>
      rw [hscheduled] at hstep
      obtain rfl := Option.some.inj hstep
      obtain ⟨hknown, hsorted, hmade, hreleased'⟩ :=
        known_delivery (s := { s with scheduled := scheduled }) h.sorted token
      exact ⟨.kept hknown hmade id, hsorted, fun hr => absurd (hreleased'.symm.trans hr) hreleased⟩
  | release =>
    rw [step] at hstep
    split_ifs at hstep with hreleased
    obtain rfl := Option.some.inj hstep
    refine ⟨.kept ?_ rfl id, List.Pairwise.nil, fun _ => rfl⟩
    -- what was kept is deleted, so what is known is the same
    change (s.deleted ++ s.packets.map Prod.snd ++ []).Perm s.known
    rw [List.append_nil]
    exact List.Perm.refl _

/-- What is known stays without repetition, and below the number of packets made. -/
lemma sound_step (s : State) (e : Event) (s' : State) (h : Sound s) (hstep : step s e = some s') :
    Sound s' := by
  obtain ⟨haccounts, hsorted, hreleased⟩ := step_spec h hstep
  have hnew : s.made ∉ s.known := fun hmem => lt_irrefl _ (h.lt_made _ hmem)
  refine ⟨hsorted, ?_, ?_, hreleased⟩
  · cases haccounts with
    | kept known => exact known.nodup_iff.mpr h.nodup
    | new known => exact known.nodup_iff.mpr (List.nodup_cons.mpr ⟨hnew, h.nodup⟩)
    | lost old rest before known =>
      have hrest := (before.nodup_iff.mp h.nodup).of_cons
      refine known.nodup_iff.mpr (List.nodup_cons.mpr ⟨fun hmem => hnew ?_, hrest⟩)
      exact before.mem_iff.mpr (List.mem_cons_of_mem old hmem)
  -- the new packet has the greatest number
  · intro k hk
    cases haccounts with
    | kept known made => exact made ▸ h.lt_made k (known.mem_iff.mp hk)
    | new known made =>
      rw [made]
      rcases List.mem_cons.mp (known.mem_iff.mp hk) with rfl | hk
      · exact Nat.lt_succ_self _
      · exact Nat.lt_succ_of_lt (h.lt_made k hk)
    | lost old rest before known made =>
      rw [made]
      rcases List.mem_cons.mp (known.mem_iff.mp hk) with rfl | hk
      · exact Nat.lt_succ_self _
      · exact Nat.lt_succ_of_lt
          (h.lt_made k (before.mem_iff.mpr (List.mem_cons_of_mem old hk)))

lemma Sound.length_le (h : Sound s) : s.known.length ≤ s.made := by
  have hsubset : s.known ⊆ List.range s.made := fun k hk => List.mem_range.mpr (h.lt_made k hk)
  have hle := (List.subperm_of_subset h.nodup hsubset).length_le
  rwa [List.length_range] at hle

lemma Sound.length_eq_iff (h : Sound s) :
    s.known.length = s.made ↔ ∀ k < s.made, k ∈ s.known := by
  constructor
  · intro hlength k hk
    have hsubset : s.known ⊆ List.range s.made := fun k hk => List.mem_range.mpr (h.lt_made k hk)
    have hperm := (List.subperm_of_subset h.nodup hsubset).perm_of_length_le
      (by rw [List.length_range, hlength])
    exact hperm.mem_iff.mpr (List.mem_range.mpr hk)
  · intro hall
    have hsubset : List.range s.made ⊆ s.known := fun k hk => hall k (List.mem_range.mp hk)
    have hle := (List.subperm_of_subset List.nodup_range hsubset).length_le
    rw [List.length_range] at hle
    exact le_antisymm h.length_le hle

/-- Every packet is still known unless one was lost before or is lost now. -/
lemma length_step (h : Sound s) (hstep : step s e = some s') :
    s'.known.length = s'.made ↔ s.known.length = s.made ∧ ¬ Reuses s e := by
  have hle := h.length_le
  cases (step_spec h hstep).1 with
  | kept known made not_reuses =>
    rw [known.length_eq, made]
    exact (and_iff_left not_reuses).symm
  | new known made not_reuses =>
    rw [known.length_eq, made, List.length_cons, Nat.add_right_cancel_iff]
    exact (and_iff_left not_reuses).symm
  | lost old rest before known made reuses =>
    have hbefore := before.length_eq
    rw [known.length_eq, made]
    rw [List.length_cons] at hbefore ⊢
    refine ⟨fun hlength => ?_, fun hnot => absurd reuses hnot.2⟩
    omega

end Step

/-! ## Every run -/

section Run

variable {s t : State} {events : List Event}

/-- Over a run, all that was made is known exactly if no token was reused. -/
lemma length_run (h : Sound s) (hrun : Machine.run step s events = some t) :
    t.known.length = t.made ↔
      s.known.length = s.made ∧ Machine.Along step (fun s e => ¬ Reuses s e) s events := by
  induction events generalizing s with
  | nil =>
    rw [Machine.run_nil, Option.some.injEq] at hrun
    subst hrun
    exact (and_iff_left trivial).symm
  | cons e events ih =>
    obtain ⟨s', hstep, hrun⟩ := Machine.run_cons_eq_some.mp hrun
    rw [ih (sound_step s e s' h hstep) hrun, length_step h hstep, and_assoc]
    refine and_congr_right fun _ => and_congr_right fun _ =>
      ⟨fun halong s₁ hs₁ => ?_, fun halong => halong s' hstep⟩
    obtain rfl : s' = s₁ := Option.some.inj (hstep.symm.trans hs₁)
    exact halong

/-- **What becomes of the packets.** In every run no packet is deleted twice or kept after that. At
the end all have been deleted exactly if the library never returned a token under which a packet
was still kept: that packet is lost. -/
theorem deleted_iff (hrun : Machine.run step start events = some s) :
    (s.deleted ++ s.packets.map Prod.snd).Nodup ∧
      (s.released = true → ((∀ k < s.made, k ∈ s.deleted) ↔
        Machine.Along step (fun s e => ¬ Reuses s e) start events)) := by
  have hsound := Machine.run_invariant sound_step sound_start hrun
  refine ⟨hsound.nodup, fun hreleased => ?_⟩
  have hknown : s.known = s.deleted := by
    rw [State.known, hsound.released_nil hreleased, List.map_nil, List.append_nil]
  rw [← hknown, ← hsound.length_eq_iff, length_run sound_start hrun]
  exact and_iff_right rfl

/-- Two messages, of which the second has the token of the first before its delivery is executed. -/
theorem deleted_iff_reused :
    (∀ k < 2, k ∈ [1]) ↔ Machine.Along step (fun s e => ¬ Reuses s e) start
      [.publish (some 0), .deliveryComplete 0 true, .publish (some 0), .execute, .release] :=
  (deleted_iff (s := ⟨[], 2, [1], [], true⟩) rfl).2 rfl

end Run

end Paho
end Vng
