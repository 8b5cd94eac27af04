import Mathlib.Algebra.Ring.Nat
import Mathlib.Data.List.Basic
import Mathlib.Data.List.Infix
/-!
# Reader — taking values off the front of a stream

A reader takes elements off the front of what a stream has available, and what it makes of them depends on these
elements alone as long as the stream has not run dry (`frame`).  So it does not matter how much of the stream behind
them has arrived.  `Reads r c a` says that `r` takes exactly `c` and makes `a` of it; a format's round trip is a proof of
it, one rule for each way of composing readers.
-/

structure Reader (β α : Type) where
  run : List β → α × List β
  suffix : ∀ s, (run s).2 <:+ s
  frame : ∀ c rest, rest ≠ [] → (run (c ++ rest)).2 = rest → ∀ rest', run (c ++ rest') = ((run (c ++ rest)).1, rest')

namespace Reader

variable {β α γ σ : Type}

protected def pure (a : α) : Reader β α where
  run s := (a, s)
  suffix _ := List.suffix_rfl
  frame c rest _ h rest' := by
    have hc : c = [] := List.append_left_eq_self.1 h
    rw [hc]
    rfl

protected def bind (r : Reader β α) (f : α → Reader β γ) : Reader β γ where
  run s := (f (r.run s).1).run (r.run s).2
  suffix s := ((f _).suffix _).trans (r.suffix s)
  frame c rest hne h rest' := by
    have hin : rest <:+ (r.run (c ++ rest)).2 := by
      have := (f (r.run (c ++ rest)).1).suffix (r.run (c ++ rest)).2
      rwa [h] at this
    obtain ⟨c₂, hc₂⟩ := hin
    obtain ⟨c₁, hc₁⟩ := r.suffix (c ++ rest)
    rw [← hc₂, ← List.append_assoc] at hc₁
    have hc := List.append_cancel_right hc₁
    have hne₂ : c₂ ++ rest ≠ [] := by simp [hne]
    have hfirst := r.frame c₁ (c₂ ++ rest) hne₂ (by rw [← List.append_assoc, hc, hc₂]) (c₂ ++ rest')
    rw [← List.append_assoc, ← List.append_assoc, hc] at hfirst
    rw [← hc₂] at h ⊢
    rw [hfirst]
    exact (f (r.run (c ++ rest)).1).frame c₂ rest hne h rest'

instance : Monad (Reader β) where
  pure := Reader.pure
  bind := Reader.bind

@[simp] theorem run_pure (a : α) (s : List β) : (pure a : Reader β α).run s = (a, s) := rfl

@[simp] theorem run_bind (r : Reader β α) (f : α → Reader β γ) (s : List β) :
    (r >>= f).run s = (f (r.run s).1).run (r.run s).2 := rfl

@[simp] theorem run_map (r : Reader β α) (f : α → γ) (s : List β) : (f <$> r).run s = (f (r.run s).1, (r.run s).2) := rfl

theorem length_run_le (r : Reader β α) (s : List β) : (r.run s).2.length ≤ s.length := (r.suffix s).length_le

/-- A reader that takes what `n` elements of `s` are makes the same of them whatever is behind `s`. -/
theorem run_append_of_length (r : Reader β α) {s t : List β} {n : Nat} (hn : n ≤ s.length)
    (h : (r.run (s ++ t)).2.length + n = (s ++ t).length) : r.run (s ++ t) = ((r.run s).1, (r.run s).2 ++ t) := by
  have hsplit : s.take n ++ (s.drop n ++ t) = s ++ t := by rw [← List.append_assoc, List.take_append_drop]
  have hleft : (r.run (s ++ t)).2 = s.drop n ++ t := by
    have hdrop : s.drop n ++ t <:+ s ++ t := ⟨s.take n, hsplit⟩
    refine (List.suffix_of_suffix_length_le (r.suffix _) hdrop ?_).eq_of_length ?_
    all_goals
      simp only [List.length_append, List.length_drop] at h ⊢
      omega
  by_cases hnil : s.drop n ++ t = []
  · rw [(List.append_eq_nil_iff.1 hnil).2, List.append_nil, List.append_nil]
  · have hframe := r.frame (s.take n) _ hnil (by rw [hsplit, hleft]) (s.drop n)
    rw [hsplit, List.take_append_drop] at hframe
    rw [hframe, ← hleft]

/-- The first `n` elements, or as many of them as there are. -/
def take (n : Nat) : Reader β (List β) where
  run s := (s.take n, s.drop n)
  suffix s := List.drop_suffix n s
  frame c rest hne h rest' := by
    have hlen := congrArg List.length h
    have hpos := List.length_pos_of_ne_nil hne
    simp only [List.length_drop, List.length_append] at hlen
    have hn : n = c.length := by omega
    simp [hn]

@[simp] theorem run_take (n : Nat) (s : List β) : (take n).run s = (s.take n, s.drop n) := rfl

/-- Passes over `n` elements. -/
def skip (n : Nat) : Reader β Unit := (fun _ => ()) <$> take n

@[simp] theorem run_skip (n : Nat) (s : List β) : (skip n).run s = ((), s.drop n) := rfl

/-- Fills a buffer of `n` elements; what the stream does not have stays `fill`. -/
def raw (fill : β) (n : Nat) : Reader β (List β) := (fun l => l ++ List.replicate (n - l.length) fill) <$> take n

/-- The same reader `n` times. -/
def times (r : Reader β α) : Nat → Reader β (List α)
  | 0 => pure []
  | n + 1 => do
    let a ← r
    let l ← times r n
    pure (a :: l)

@[simp] theorem length_times (r : Reader β α) : ∀ (n : Nat) (s : List β), ((r.times n).run s).1.length = n
  | 0, _ => rfl
  | n + 1, s => congrArg (· + 1) (length_times r n (r.run s).2)

/-- An update of `s` that reads, where `present` says so. -/
def when (present : Bool) (f : σ → Reader β σ) (s : σ) : Reader β σ := if present then f s else pure s

@[simp] theorem when_false (f : σ → Reader β σ) (s : σ) : when false f s = pure s := rfl

@[simp] theorem when_true (f : σ → Reader β σ) (s : σ) : when true f s = f s := rfl

theorem untilStop_frame (stop : β → Bool) : ∀ (c rest : List β), rest ≠ [] →
    ((c ++ rest).dropWhile (fun b => !stop b)).drop 1 = rest → ∀ rest',
    (c ++ rest').takeWhile (fun b => !stop b) = (c ++ rest).takeWhile (fun b => !stop b) ∧
      ((c ++ rest').dropWhile (fun b => !stop b)).drop 1 = rest'
  | [], rest, hne, h, _ => by
    have hlen := congrArg List.length h
    have hle := (List.dropWhile_suffix (fun b => !stop b) (l := rest)).length_le
    have hpos := List.length_pos_of_ne_nil hne
    simp only [List.nil_append, List.length_drop] at hlen
    omega
  | b :: c, rest, hne, h, rest' => by
    cases hb : stop b with
    | true =>
      simp only [List.cons_append, List.dropWhile_cons, hb, Bool.not_true, Bool.false_eq_true, if_false,
        List.drop_succ_cons,
        List.drop_zero] at h
      obtain rfl := List.append_left_eq_self.1 h
      simp [hb]
    | false =>
      simp only [List.cons_append, List.dropWhile_cons, hb, Bool.not_false, if_true] at h
      obtain ⟨htake, hdrop⟩ := untilStop_frame stop c rest hne h rest'
      simp [hb, htake, hdrop]

/-- The elements up to the first that is a stop, which is taken as well. -/
def untilStop (stop : β → Bool) : Reader β (List β) where
  run s := (s.takeWhile (fun b => !stop b), (s.dropWhile (fun b => !stop b)).drop 1)
  suffix s := (List.drop_suffix _ _).trans (List.dropWhile_suffix _)
  frame c rest hne h rest' := by
    obtain ⟨htake, hdrop⟩ := untilStop_frame stop c rest hne h rest'
    exact Prod.ext htake hdrop

/-- Updates that read, up to the first that fails. -/
def steps : List (σ → Reader β (Bool × σ)) → σ → Reader β (Bool × σ)
  | [], s => pure (true, s)
  | f :: fs, s => do
    let (ok, s) ← f s
    if ok then steps fs s else pure (false, s)

/-- What each update keeps, all of them do, wherever they stop. -/
theorem steps_keeps {P : σ → Prop} : ∀ {fs : List (σ → Reader β (Bool × σ))} {s : σ},
    (∀ f ∈ fs, ∀ s bytes, P s → P ((f s).run bytes).1.2) → P s → ∀ bytes, P ((steps fs s).run bytes).1.2
  | [], _, _, hs, _ => hs
  | f :: fs, s, h, hs, bytes => by
    have hfirst := h f List.mem_cons_self s bytes hs
    rw [steps, run_bind]
    rcases hrun : (f s).run bytes with ⟨⟨ok, s'⟩, bytes'⟩
    rw [hrun] at hfirst
    cases ok with
    | false => exact hfirst
    | true => exact steps_keeps (fun g hg => h g (List.mem_cons_of_mem f hg)) hfirst bytes'

/-! ## What a reader takes -/

/-- The reader takes exactly `c`, whatever is behind it, and makes `a` of it. -/
def Reads (r : Reader β α) (c : List β) (a : α) : Prop := ∀ rest, r.run (c ++ rest) = (a, rest)

namespace Reads

variable {r : Reader β α} {c d : List β} {a : α}

theorem run_eq (h : Reads r c a) : r.run c = (a, []) := by simpa using h []

theorem of_eq {c' : List β} {a' : α} (h : Reads r c a) (hc : c' = c) (ha : a' = a) : Reads r c' a' := by rwa [hc, ha]

theorem pure (a : α) : Reads (pure a : Reader β α) [] a := fun _ => rfl

theorem bind {f : α → Reader β γ} {b : γ} (h : Reads r c a) (hf : Reads (f a) d b) : Reads (r >>= f) (c ++ d) b :=
  fun rest => by rw [run_bind, List.append_assoc, h]; exact hf rest

/-- A stream of sections, by the reader of its first one. -/
theorem section_cons {f : α → Reader β γ} {b : γ} {l : List (List β)} (h : Reads r c a) (hf : Reads (f a) l.flatten b) :
    Reads (r >>= f) (c :: l).flatten b := h.bind hf

theorem section_last (h : Reads r c a) : Reads r [c].flatten a := h.of_eq List.flatten_singleton rfl

theorem map (f : α → γ) (h : Reads r c a) : Reads (f <$> r) c (f a) := fun rest => by rw [run_map, h]

theorem take (c : List β) : Reads (Reader.take c.length) c c := fun rest => by simp

theorem skip (c : List β) : Reads (Reader.skip c.length) c () := fun rest => by simp

theorem raw (fill : β) (c : List β) : Reads (Reader.raw fill c.length) c c := fun rest => by simp [Reader.raw]

theorem times {f : γ → List β} {g : γ → α} (h : ∀ x, Reads r (f x) (g x)) :
    ∀ l : List γ, Reads (r.times l.length) (l.flatMap f) (l.map g)
  | [] => pure []
  | x :: l => by
    have hl := (times h l).bind (f := fun l => Pure.pure (g x :: l)) (pure (g x :: l.map g))
    rw [List.append_nil] at hl
    rw [List.flatMap_cons]
    exact (h x).bind hl

theorem untilStop {stop : β → Bool} {c : List β} (h : ∀ b ∈ c, stop b = false) {e : β} (he : stop e = true) :
    Reads (Reader.untilStop stop) (c ++ [e]) c := by
  intro rest
  have htake : ∀ b ∈ c, (!stop b) = true := fun b hb => by rw [h b hb]; rfl
  have hstop : (!stop e) = false := by rw [he]; rfl
  show ((c ++ [e] ++ rest).takeWhile _, ((c ++ [e] ++ rest).dropWhile _).drop 1) = (c, rest)
  rw [List.append_assoc, List.singleton_append, List.takeWhile_append_of_pos htake, List.dropWhile_append_of_pos htake,
    List.takeWhile_cons_of_neg (by rw [hstop]; exact Bool.false_ne_true),
    List.dropWhile_cons_of_neg (by rw [hstop]; exact Bool.false_ne_true), List.append_nil, List.drop_succ_cons,
    List.drop_zero]

theorem steps_cons {f : σ → Reader β (Bool × σ)} {fs : List (σ → Reader β (Bool × σ))} {s s' s'' : σ} {ok : Bool}
    (h : Reads (f s) c (true, s')) (hfs : Reads (Reader.steps fs s') d (ok, s'')) :
    Reads (Reader.steps (f :: fs) s) (c ++ d) (ok, s'') := h.bind hfs

/-- A section that may be there: `g` says what becomes of `s` with it and without it. -/
theorem when {present : Bool} {f : σ → Reader β σ} {s : σ} {g : Bool → σ} (h : Reads (f s) c (g true))
    (hs : g false = s) : Reads (Reader.when present f s) (if present then c else []) (g present) := by
  cases present with
  | false => rw [when_false, hs]; exact pure s
  | true => exact h

/-- A section that may be there, and leaves what is expected of it where it is not. -/
theorem when_of {p : Prop} [Decidable p] {f : σ → Reader β σ} {s t : σ} (h : p → Reads (f s) c t) (h' : ¬p → s = t) :
    Reads (Reader.when p f s) (if p then c else []) t := by
  by_cases hp : p
  · rw [if_pos hp, decide_eq_true hp]
    exact h hp
  · rw [if_neg hp, decide_eq_false hp, h' hp]
    exact pure t

end Reads

/-! ## Readers of fixed width -/

/-- The reader takes exactly `n` elements wherever there are as many. -/
def Takes (r : Reader β α) (n : Nat) : Prop := ∀ c, c.length = n → ∃ a, Reads r c a

namespace Takes

variable {r : Reader β α} {m n : Nat}

theorem of_eq (h : Takes r m) (hn : m = n) : Takes r n := hn ▸ h

theorem pure (a : α) : Takes (pure a : Reader β α) 0 := fun c hc => by
  obtain rfl := List.length_eq_zero_iff.1 hc
  exact ⟨a, .pure a⟩

theorem take (n : Nat) : Takes (Reader.take n : Reader β (List β)) n := fun c hc => by
  subst hc
  exact ⟨c, .take c⟩

theorem map (f : α → γ) (h : Takes r n) : Takes (f <$> r) n := fun c hc => by
  obtain ⟨a, ha⟩ := h c hc
  exact ⟨f a, ha.map f⟩

/-- What is read next may depend on what was read. -/
theorem bind_run {f : α → Reader β γ} (h : Takes r m) (hf : ∀ s, Takes (f (r.run s).1) n) : Takes (r >>= f) (m + n) :=
  fun c hc => by
    obtain ⟨a, ha⟩ := h (c.take m) (by rw [List.length_take]; omega)
    have hnext := hf (c.take m)
    rw [ha.run_eq] at hnext
    obtain ⟨b, hb⟩ := hnext (c.drop m) (by rw [List.length_drop]; omega)
    have := ha.bind hb
    rw [List.take_append_drop] at this
    exact ⟨b, this⟩

theorem bind {f : α → Reader β γ} (h : Takes r m) (hf : ∀ a, Takes (f a) n) : Takes (r >>= f) (m + n) :=
  h.bind_run fun _ => hf _

/-- A section that may be there. -/
theorem when {present : Bool} {f : σ → Reader β σ} {s : σ} (h : Takes (f s) n) :
    Takes (Reader.when present f s) (if present then n else 0) := by
  cases present with
  | false => exact pure s
  | true => exact h

theorem times (h : Takes r n) : ∀ k, Takes (r.times k) (k * n)
  | 0 => by
    rw [Nat.zero_mul]
    exact pure []
  | k + 1 => by
    rw [Nat.succ_mul, Nat.add_comm (k * n)]
    exact h.bind fun a => (times h k).map (a :: ·)

/-- What has not arrived yet does not matter to a reader that has what it takes. -/
theorem run_append (h : Takes r n) {s : List β} (hs : n ≤ s.length) (t : List β) :
    r.run (s ++ t) = ((r.run s).1, (r.run s).2 ++ t) ∧ (r.run s).2.length + n = s.length := by
  obtain ⟨a, ha⟩ := h (s.take n) (by rw [List.length_take]; omega)
  have hrun := ha (s.drop n)
  have hrun' := ha (s.drop n ++ t)
  rw [List.take_append_drop] at hrun
  rw [← List.append_assoc, List.take_append_drop] at hrun'
  rw [hrun', hrun]
  refine ⟨rfl, ?_⟩
  rw [List.length_drop]
  omega

/-- A stream that has less is taken as a whole. -/
theorem length_run (h : Takes r n) (s : List β) : (r.run s).2.length = s.length - n := by
  by_cases hs : n ≤ s.length
  · have := (h.run_append hs []).2
    omega
  · cases hleft : (r.run s).2 with
    | nil => simp only [List.length_nil]; omega
    | cons b t =>
      -- then the reader had all it takes, and takes no more of a longer stream
      obtain ⟨c, hc⟩ := r.suffix s
      rw [hleft] at hc
      subst hc
      have hframe := r.frame c (b :: t) (List.cons_ne_nil b t) hleft (b :: t ++ List.replicate n b)
      have hlong := (h.run_append (s := c ++ (b :: t ++ List.replicate n b)) (by simp; omega) []).2
      rw [hframe] at hlong
      simp only [List.length_append, List.length_cons, List.length_replicate] at hlong hs
      omega

/-- **What is left is what is behind it**, if anything. -/
theorem run_snd (h : Takes r n) (s : List β) : (r.run s).2 = s.drop n := by
  have hlen := h.length_run s
  rw [← List.length_drop] at hlen
  exact (List.suffix_of_suffix_length_le (r.suffix s) (List.drop_suffix n s) hlen.le).eq_of_length hlen

/-- What is taken behind the first part may depend on what the first part is. -/
theorem bind_run_snd {f : α → Reader β γ} {s : List β} (h : Takes r m) (hf : Takes (f (r.run s).1) n) :
    ((r >>= f).run s).2 = s.drop (m + n) := by
  rw [run_bind, hf.run_snd, h.run_snd, List.drop_drop]

end Takes

/-! ## Readers that stay within what they are given -/

/-- The reader takes nothing of what is behind `c`, whatever that is. -/
def Within (r : Reader β α) (c : List β) : Prop := ∀ rest, rest <:+ (r.run (c ++ rest)).2

/-- Where something is behind `c`, a reader leaves it exactly if it stays within `c` always. -/
theorem length_run_iff_within (r : Reader β α) (c : List β) {rest : List β} (hne : rest ≠ []) :
    rest.length ≤ (r.run (c ++ rest)).2.length ↔ Within r c := by
  constructor
  · intro hlen more
    obtain ⟨taken, htaken⟩ := r.suffix (c ++ rest)
    have hrest : rest <:+ (r.run (c ++ rest)).2 :=
      List.suffix_of_suffix_length_le (List.suffix_append c rest) (r.suffix _) hlen
    obtain ⟨left, hleft⟩ := hrest
    rw [← hleft, ← List.append_assoc] at htaken
    have hc := List.append_cancel_right htaken
    have hframe := r.frame taken (left ++ rest) (by simp [hne]) (by rw [← List.append_assoc, hc, ← hleft]) (left ++ more)
    rw [← List.append_assoc, hc] at hframe
    rw [hframe]
    exact List.suffix_append left more
  · exact fun h => (h rest).length_le

theorem Takes.within_iff {r : Reader β α} {n : Nat} (h : Takes r n) (c : List β) {rest : List β} (hne : rest ≠ []) :
    Within r c ↔ n ≤ c.length := by
  have hpos := List.length_pos_of_ne_nil hne
  rw [← length_run_iff_within r c hne, h.length_run, List.length_append]
  omega

/-! ## Numbers of fixed width -/

/-- The number with the given bytes, the least significant first. -/
def ofBytes : List UInt8 → Nat
  | [] => 0
  | b :: bytes => b.toNat + 256 * ofBytes bytes

/-- The `k` lowest bytes of a number, the least significant first. -/
def toBytes : Nat → Nat → List UInt8
  | 0, _ => []
  | k + 1, n => UInt8.ofNat n :: toBytes k (n / 256)

@[simp] theorem length_toBytes : ∀ k n : Nat, (toBytes k n).length = k
  | 0, _ => rfl
  | k + 1, n => by rw [toBytes, List.length_cons, length_toBytes]

theorem ofBytes_toBytes : ∀ k n : Nat, ofBytes (toBytes k n) = n % 256 ^ k
  | 0, n => by simp [ofBytes, toBytes, Nat.mod_one]
  | k + 1, n => by
    rw [toBytes, ofBytes, ofBytes_toBytes k (n / 256), UInt8.toNat_ofNat']
    have h : n % 256 ^ (k + 1) = n % 256 + 256 * (n / 256 % 256 ^ k) := by
      rw [Nat.pow_succ']
      exact Nat.mod_mul
    exact h.symm

/-- The bytes of a number in the byte order of a stream. -/
def encode (bigEndian : Bool) (k n : Nat) : List UInt8 :=
  if bigEndian then (toBytes k n).reverse else toBytes k n

def decode (bigEndian : Bool) (bytes : List UInt8) : Nat :=
  ofBytes (if bigEndian then bytes.reverse else bytes)

@[simp] theorem length_encode (bigEndian : Bool) (k n : Nat) : (encode bigEndian k n).length = k := by
  unfold encode
  split <;> simp

theorem decode_encode (bigEndian : Bool) (k n : Nat) : decode bigEndian (encode bigEndian k n) = n % 256 ^ k := by
  unfold decode encode
  cases bigEndian <;> simp [ofBytes_toBytes]

/-- A number of `k` bytes; zero where the stream ends before them, and then everything left is taken. -/
def number (bigEndian : Bool) (k : Nat) : Reader UInt8 Nat :=
  (fun bytes => if bytes.length < k then 0 else decode bigEndian bytes) <$> take k

theorem Reads.number (bigEndian : Bool) {k n : Nat} (h : n < 256 ^ k) :
    Reads (Reader.number bigEndian k) (encode bigEndian k n) n := by
  have hc := Reads.take (encode bigEndian k n)
  rw [length_encode] at hc
  have := hc.map (fun bytes => if bytes.length < k then 0 else decode bigEndian bytes)
  rwa [length_encode, if_neg (Nat.lt_irrefl k), decode_encode, Nat.mod_eq_of_lt h] at this

theorem Takes.number (bigEndian : Bool) (k : Nat) : Takes (Reader.number bigEndian k) k := (Takes.take k).map _

end Reader
