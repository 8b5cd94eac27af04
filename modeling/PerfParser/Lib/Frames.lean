import Mathlib.Data.List.Basic
import Mathlib.Data.List.Infix
/-!
# Frames — messages one behind the other, each behind its length

A receiver takes the length of a message, then the message, and stops where less than a length is left.  It handles the
messages that were sent and no others (`receive_frames`); of a stream that is cut it handles those before the cut, and it
notices every cut but one that leaves less than a length (`receive_prefix`).
-/

/-- Lengths as prefixes of one width, told apart up to a limit. -/
structure Framing (β : Type) where
  width : Nat
  encode : Nat → List β
  decode : List β → Nat
  limit : Nat
  width_pos : 0 < width
  length_encode : ∀ n, (encode n).length = width
  decode_encode : ∀ n < limit, decode (encode n) = n

namespace Framing

variable {β σ : Type} (F : Framing β)

def frame (p : List β) : List β := F.encode p.length ++ p

def frames (ps : List (List β)) : List β := ps.flatMap F.frame

theorem length_frame (p : List β) : (F.frame p).length = F.width + p.length := by
  rw [frame, List.length_append, F.length_encode]

@[simp] theorem frames_nil : F.frames [] = [] := rfl

@[simp] theorem frames_cons (p : List β) (ps : List (List β)) : F.frames (p :: ps) = F.frame p ++ F.frames ps :=
  List.flatMap_cons

/-! ## Receiving -/

variable (step : σ → List β → Option σ)

/-- The loop of a receiver, none where a message is refused or is not all there.  Every round takes a length, so `fuel` is
the length of the stream and one. -/
def receiveLoop : Nat → σ → List β → Option σ
  | 0, _, _ => none
  | fuel + 1, st, s =>
    if s.length < F.width then some st
    else
      let size := F.decode (s.take F.width)
      let s := s.drop F.width
      if s.length < size then none
      else
        match step st (s.take size) with
        | none => none
        | some st => receiveLoop fuel st (s.drop size)

def receive (st : σ) (s : List β) : Option σ := F.receiveLoop step (s.length + 1) st s

/-- More fuel than the stream is long changes nothing. -/
theorem receiveLoop_eq : ∀ {fuel fuel' : Nat} (st : σ) {s : List β}, s.length < fuel → s.length < fuel' →
    F.receiveLoop step fuel st s = F.receiveLoop step fuel' st s
  | 0, _, _, _, h, _ => absurd h (Nat.not_lt_zero _)
  | _, 0, _, _, _, h => absurd h (Nat.not_lt_zero _)
  | fuel + 1, fuel' + 1, st, s, h, h' => by
    have hpos := F.width_pos
    unfold receiveLoop
    split
    · rfl
    · rename_i hlong
      dsimp only
      split
      · rfl
      · split
        · rfl
        · refine receiveLoop_eq _ ?_ ?_
          all_goals
            rw [List.length_drop, List.length_drop]
            omega

theorem receive_eq {fuel : Nat} (st : σ) {s : List β} (h : s.length < fuel) :
    F.receive step st s = F.receiveLoop step fuel st s := F.receiveLoop_eq step st (Nat.lt_succ_self _) h

/-- What handling a message keeps, a receiver keeps. -/
theorem receiveLoop_invariant {I : σ → Prop} (hstep : ∀ st p st', step st p = some st' → I st → I st') :
    ∀ {fuel : Nat} {st : σ} {s : List β} {st' : σ}, F.receiveLoop step fuel st s = some st' → I st → I st'
  | 0, _, _, _, h, _ => by cases h
  | fuel + 1, st, s, st', h, hI => by
    unfold receiveLoop at h
    split at h
    · rwa [← Option.some.inj h]
    · dsimp only at h
      split at h
      · cases h
      · split at h
        · cases h
        · rename_i st₁ hst₁
          exact receiveLoop_invariant hstep h (hstep _ _ _ hst₁ hI)

theorem receive_of_short (st : σ) {s : List β} (h : s.length < F.width) : F.receive step st s = some st := if_pos h

/-- The prefix and the rest of a stream that starts with a message. -/
theorem take_drop_frame (p s : List β) :
    (F.frame p ++ s).take F.width = F.encode p.length ∧ (F.frame p ++ s).drop F.width = p ++ s := by
  rw [frame, List.append_assoc, ← F.length_encode p.length]
  exact ⟨List.take_left, List.drop_left⟩

/-- **A message is handled as it was sent.** -/
theorem receive_frame (st : σ) {p : List β} (hp : p.length < F.limit) (s : List β) :
    F.receive step st (F.frame p ++ s) = (step st p).bind fun st => F.receive step st s := by
  obtain ⟨htake, hdrop⟩ := F.take_drop_frame p s
  have hlen : (F.frame p ++ s).length = F.width + (p.length + s.length) := by
    rw [List.length_append, length_frame, Nat.add_assoc]
  rw [receive, receiveLoop, if_neg (by omega)]
  dsimp only
  rw [htake, hdrop, F.decode_encode _ hp, if_neg (by rw [List.length_append]; omega), List.take_left, List.drop_left]
  cases step st p with
  | none => rfl
  | some st =>
    have := F.width_pos
    exact (F.receive_eq step st (by omega)).symm

/-- **A stream of messages is handled message by message.** -/
theorem receive_frames : ∀ (ps : List (List β)) (st : σ), (∀ p ∈ ps, p.length < F.limit) → ∀ s,
    F.receive step st (F.frames ps ++ s) = (ps.foldlM step st).bind fun st => F.receive step st s
  | [], _, _, _ => rfl
  | p :: ps, st, h, s => by
    rw [frames_cons, List.append_assoc, F.receive_frame step st (h p List.mem_cons_self), List.foldlM_cons]
    cases hp : step st p with
    | none => rfl
    | some st => exact receive_frames ps st (fun q hq => h q (List.mem_cons_of_mem p hq)) s

/-! ## Cut streams -/

/-- A stream that is cut has some whole messages and a part of the next one, if any. -/
structure CutAt (ps : List (List β)) (s : List β) (k : Nat) (part : List β) : Prop where
  le : k ≤ ps.length
  eq : s = F.frames (ps.take k) ++ part
  part : part = [] ∨ ∃ p, ps[k]? = some p ∧ part <+: F.frame p ∧ part.length < (F.frame p).length

theorem exists_cutAt : ∀ {ps : List (List β)} {s : List β}, s <+: F.frames ps → ∃ k part, F.CutAt ps s k part
  | [], s, h => by
    rw [List.prefix_nil.1 h]
    exact ⟨0, [], Nat.le_refl 0, rfl, .inl rfl⟩
  | p :: ps, s, h => by
    rw [frames_cons] at h
    by_cases hlen : s.length < (F.frame p).length
    · have hpart : s <+: F.frame p := List.prefix_of_prefix_length_le h (List.prefix_append _ _) hlen.le
      exact ⟨0, s, Nat.zero_le _, rfl, .inr ⟨p, rfl, hpart, hlen⟩⟩
    · obtain ⟨s', rfl⟩ : F.frame p <+: s :=
        List.prefix_of_prefix_length_le (List.prefix_append _ _) h (Nat.le_of_not_lt hlen)
      obtain ⟨k, part, hcut⟩ := exists_cutAt ((List.prefix_append_right_inj _).1 h)
      refine ⟨k + 1, part, Nat.succ_le_succ hcut.le, ?_, ?_⟩
      · rw [List.take_succ_cons, frames_cons, List.append_assoc, ← hcut.eq]
      · rw [List.getElem?_cons_succ]
        exact hcut.part

/-- A message that is not all there is refused, unless its length is not there either. -/
theorem receive_part (st : σ) {p part : List β} (hp : p.length < F.limit) (h : part <+: F.frame p)
    (hlen : part.length < (F.frame p).length) :
    F.receive step st part = if part.length < F.width then some st else none := by
  split
  · rename_i hshort
    exact F.receive_of_short step st hshort
  · rename_i hlong
    have htake : part.take F.width = F.encode p.length := by
      rw [← (F.take_drop_frame p []).1, List.append_nil]
      obtain ⟨t, ht⟩ := h
      rw [← ht, List.take_append_of_le_length (Nat.le_of_not_lt hlong)]
    rw [length_frame] at hlen
    rw [receive, receiveLoop, if_neg hlong]
    dsimp only
    rw [htake, F.decode_encode _ hp, if_pos (by rw [List.length_drop]; omega)]

/-- **Of a stream that is cut the whole messages are handled, and the cut is noticed** unless it leaves less than a
length. -/
theorem receive_prefix {ps : List (List β)} (hps : ∀ p ∈ ps, p.length < F.limit) (st : σ) {s : List β} {k : Nat}
    {part : List β} (h : F.CutAt ps s k part) :
    F.receive step st s = ((ps.take k).foldlM step st).bind fun st => if part.length < F.width then some st else none := by
  rw [h.eq, F.receive_frames step _ st (fun p hp => hps p (List.mem_of_mem_take hp))]
  rcases h.part with hpart | ⟨p, hp, hpart, hlen⟩
  · rw [hpart]
    have hnil : ([] : List β).length < F.width := F.width_pos
    exact congrArg _ (funext fun st => (F.receive_of_short step st hnil).trans (if_pos hnil).symm)
  · exact congrArg _ (funext fun st => F.receive_part step st (hps p (List.mem_of_getElem? hp)) hpart hlen)

end Framing
