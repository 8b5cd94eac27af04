import PerfParser.ReadEvents
/-!
# Decompress — the loop over `ZSTD_decompressStream`

The library writes at `dst + pos` and keeps `pos`, and the loop moves `dst` up by `pos` as well: what one call produces
is written twice as far into the buffer as the calls before it have produced.  Up to one call that produces anything
that is the same place.
-/
namespace PerfParser
namespace PerfData

variable {δ : Type} (E : Env δ)

/-! ## Buffers -/

theorem length_resize (bytes : QByteArray) (size : Nat) : (resize bytes size).length = size := by
  simp only [resize, List.length_append, List.length_take, List.length_replicate]
  omega

theorem resize_of_le {bytes : QByteArray} {size : Nat} (h : size ≤ bytes.length) :
    resize bytes size = bytes.take size := by
  rw [resize, Nat.sub_eq_zero_of_le h, List.replicate_zero, List.append_nil]

theorem take_resize {bytes : QByteArray} {n size : Nat} (h : n ≤ size) (hn : n ≤ bytes.length) :
    (resize bytes size).take n = bytes.take n := by
  rw [resize, List.take_append_of_le_length (by rw [List.length_take]; omega), List.take_take, Nat.min_eq_left h]

@[simp] theorem overwrite_nil (bytes : QByteArray) (pos : Nat) : overwrite bytes pos [] = bytes := by
  rw [overwrite, List.append_nil, List.length_nil, Nat.add_zero, List.take_append_drop]

theorem overwrite_zero (bytes out : QByteArray) : overwrite bytes 0 out = out ++ bytes.drop out.length := by
  rw [overwrite, List.take_zero, List.nil_append, Nat.zero_add]

theorem length_overwrite (bytes : QByteArray) (pos : Nat) (out : QByteArray) (h : pos + out.length ≤ bytes.length) :
    (overwrite bytes pos out).length = bytes.length := by
  simp only [overwrite, List.length_append, List.length_take, List.length_drop]
  omega

theorem getElem?_overwrite_of_lt {bytes out : QByteArray} {pos i : Nat} (h : i < pos) (hpos : pos ≤ bytes.length) :
    (overwrite bytes pos out)[i]? = bytes[i]? := by
  rw [overwrite, List.append_assoc, List.getElem?_append_left (by rw [List.length_take]; omega),
    List.getElem?_take_of_lt h]

/-! ## The calls of the loop -/

/-- The calls that the loop makes, by what they produce.  Every call gets the output buffer as the one before it left
it. -/
inductive Calls (outBufferSize : Nat) : δ → QByteArray → OutBuffer → List QByteArray → δ → Prop
  | done {z : δ} {out : OutBuffer} : Calls outBufferSize z [] out [] z
  | call {z z₁ z' : δ} {input produced : QByteArray} {consumed : Nat} {out : OutBuffer} {outs : List QByteArray} :
      input ≠ [] → callZstd E z input out = some (z₁, consumed, produced) →
      Calls outBufferSize z₁ (input.drop consumed)
        { dst := out.pos + produced.length, size := outBufferSize - (out.pos + produced.length),
          pos := out.pos + produced.length } outs z' →
      Calls outBufferSize z input out (produced :: outs) z'

/-- Where the loop writes what its calls produce, from `pos` on. -/
def writes : QByteArray → Nat → List QByteArray → QByteArray
  | memory, _, [] => memory
  | memory, pos, out :: outs => writes (overwrite memory (pos + pos) out) (pos + out.length) outs

variable {E} {z z' : δ} {input : QByteArray} {out : OutBuffer} {outs : List QByteArray} {outBufferSize : Nat}

theorem callZstd_some {z₁ : δ} {consumed : Nat} {produced : QByteArray}
    (h : callZstd E z input out = some (z₁, consumed, produced)) :
    out.pos ≤ out.size ∧ E.zstd.decompressStream z input (out.size - out.pos) = some (z₁, consumed, produced)
      ∧ out.pos + produced.length ≤ out.size := by
  unfold callZstd at h
  split at h
  · cases h
  · have := E.zstd.produced_le h
    exact ⟨by omega, h, by omega⟩

/-- The loop makes all its calls: the fuel it is given is enough. -/
theorem decompressLoop_of_calls (h : Calls E outBufferSize z input out outs z') (hdst : out.dst = out.pos)
    (hsize : out.size = outBufferSize - out.pos) : ∀ (fuel : Nat) (memory : QByteArray),
    E.zstd.calls z input (out.size - out.pos) < fuel →
      decompressLoop E outBufferSize fuel z input out memory
        = some (z', out.pos + outs.flatten.length, writes memory out.pos outs) := by
  induction h with
  | done =>
    intro fuel memory hfuel
    cases fuel with
    | zero => omega
    | succ fuel => rfl
  | @call z z₁ z' input produced consumed out outs hne hcall hcalls ih =>
    intro fuel memory hfuel
    cases fuel with
    | zero => omega
    | succ fuel =>
      obtain ⟨hpos, hstream, hroom⟩ := callZstd_some hcall
      have hlt := E.zstd.calls_lt hstream
        (outBufferSize - (out.pos + produced.length) - (out.pos + produced.length)) (by omega)
      rw [decompressLoop, if_neg hne, hcall]
      simp only
      rw [ih rfl rfl fuel _ (by simp only; omega), hdst]
      simp only [writes, List.flatten_cons, List.length_append, Nat.add_assoc]

/-- No call writes behind the end of the buffer. -/
theorem Calls.room (h : Calls E outBufferSize z input out outs z') (hsize : out.size = outBufferSize - out.pos) :
    ∀ pre o post, outs = pre ++ o :: post → 2 * (out.pos + pre.flatten.length) + o.length ≤ outBufferSize := by
  induction h with
  | done =>
    intro pre o post hsplit
    cases pre <;> cases hsplit
  | call hne hcall hcalls ih =>
    obtain ⟨hpos, -, hroom⟩ := callZstd_some hcall
    intro pre o post hsplit
    cases pre with
    | nil =>
      obtain ⟨rfl, -⟩ := List.cons.inj hsplit
      rw [List.flatten_nil, List.length_nil]
      omega
    | cons o' pre =>
      obtain ⟨rfl, htail⟩ := List.cons.inj hsplit
      have := ih rfl pre o post htail
      rw [List.flatten_cons, List.length_append]
      simp only at this
      omega

theorem length_flatten_le {pos : Nat} : ∀ {outs : List QByteArray},
    (∀ pre o post, outs = pre ++ o :: post → 2 * (pos + pre.flatten.length) + o.length ≤ outBufferSize) →
      outs.flatten.length ≤ outBufferSize := by
  intro outs h
  rcases List.eq_nil_or_concat outs with rfl | ⟨pre, o, rfl⟩
  · exact Nat.zero_le _
  · rw [List.concat_eq_append] at h ⊢
    have := h pre o [] rfl
    rw [List.flatten_append, List.length_append, List.flatten_singleton]
    omega

theorem length_writes : ∀ (outs : List QByteArray) (memory : QByteArray) (pos : Nat),
    (∀ pre o post, outs = pre ++ o :: post → 2 * (pos + pre.flatten.length) + o.length ≤ memory.length) →
      (writes memory pos outs).length = memory.length
  | [], _, _, _ => rfl
  | o :: outs, memory, pos, h => by
    have hfirst := h [] o outs rfl
    simp only [List.flatten_nil, List.length_nil, Nat.add_zero] at hfirst
    have hlen := length_overwrite memory (pos + pos) o (by omega)
    rw [writes, length_writes outs _ _ fun pre o' post hsplit => ?_, hlen]
    have := h (o :: pre) o' post (by rw [hsplit]; rfl)
    rw [List.flatten_cons, List.length_append] at this
    rw [hlen]
    omega

theorem decompress_of_calls {buffer : QByteArray} {remaining : Nat} (hremaining : remaining ≤ buffer.length)
    (h : Calls E E.mmapLen z input { dst := 0, size := E.mmapLen, pos := 0 } outs z') :
    decompress E z buffer remaining input
      = some (z', buffer.take remaining
        ++ (writes ((resize buffer (E.mmapLen + remaining)).drop remaining) 0 outs).take outs.flatten.length) := by
  have hroom := h.room rfl
  have htake : (resize buffer (E.mmapLen + remaining)).take remaining = buffer.take remaining :=
    take_resize (by omega) hremaining
  have hlen : ((resize buffer (E.mmapLen + remaining)).drop remaining).length = E.mmapLen := by
    rw [List.length_drop, length_resize]
    omega
  have hsize : (resize buffer (E.mmapLen + remaining)).length - remaining = E.mmapLen := by
    rw [length_resize]
    omega
  have hwrites := length_writes outs ((resize buffer (E.mmapLen + remaining)).drop remaining) 0 (by rwa [hlen])
  have htotal := length_flatten_le hroom
  have hhead : (buffer.take remaining).length = remaining := by
    rw [List.length_take]
    omega
  have hloop := decompressLoop_of_calls h rfl rfl (E.zstd.calls z input E.mmapLen + 1)
    ((resize buffer (E.mmapLen + remaining)).drop remaining) (Nat.lt_succ_self _)
  unfold decompress
  simp only
  rw [hsize, hloop, htake]
  simp only [Nat.zero_add]
  rw [resize_of_le (by rw [List.length_append, hwrites, hhead, hlen]; omega), Nat.add_comm, List.take_append, hhead,
    List.take_of_length_le (by omega), Nat.add_sub_cancel_left]

/-! ## One call that produces anything -/

theorem writes_of_empty : ∀ (outs : List QByteArray) (memory : QByteArray) (pos : Nat), (∀ o ∈ outs, o = []) →
    writes memory pos outs = memory
  | [], _, _, _ => rfl
  | o :: outs, memory, pos, h => by
    obtain rfl := h o List.mem_cons_self
    rw [writes, overwrite_nil, writes_of_empty outs memory _ fun o ho => h o (List.mem_cons_of_mem _ ho)]

theorem writes_of_one : ∀ (outs : List QByteArray) (memory : QByteArray),
    (outs.filter (fun o => o ≠ [])).length ≤ 1 → (writes memory 0 outs).take outs.flatten.length = outs.flatten
  | [], _, _ => rfl
  | o :: outs, memory, h => by
    by_cases ho : o = []
    · subst ho
      rw [writes, overwrite_nil, List.flatten_cons, List.nil_append]
      exact writes_of_one outs memory (by simpa using h)
    · rw [List.filter_cons_of_pos (by simpa using ho), List.length_cons] at h
      have hrest : ∀ o' ∈ outs, o' = [] := by
        intro o' ho'
        by_contra hne
        have := List.length_pos_of_mem (List.mem_filter.2 ⟨ho', by simpa using hne⟩ : o' ∈ outs.filter (fun o => o ≠ []))
        omega
      have hflat : outs.flatten = [] := List.flatten_eq_nil_iff.2 hrest
      rw [writes, writes_of_empty outs _ _ hrest, List.flatten_cons, hflat, List.append_nil]
      rw [Nat.add_zero, overwrite_zero, List.take_left]

/-! ## Two calls that do -/

theorem getElem?_writes_of_lt : ∀ (outs : List QByteArray) (memory : QByteArray) (pos i : Nat), i < 2 * pos →
    (∀ pre o post, outs = pre ++ o :: post → 2 * (pos + pre.flatten.length) + o.length ≤ memory.length) →
      (writes memory pos outs)[i]? = memory[i]?
  | [], _, _, _, _, _ => rfl
  | o :: outs, memory, pos, i, hi, h => by
    have hfirst := h [] o outs rfl
    simp only [List.flatten_nil, List.length_nil, Nat.add_zero] at hfirst
    have hlen := length_overwrite memory (pos + pos) o (by omega)
    rw [writes, getElem?_writes_of_lt outs _ _ i (by omega) fun pre o' post hsplit => ?_,
      getElem?_overwrite_of_lt (by omega) (by omega)]
    have := h (o :: pre) o' post (by rw [hsplit]; rfl)
    rw [List.flatten_cons, List.length_append] at this
    rw [hlen]
    omega

/-- A library that produces what it is told to, and takes its input with the last call. -/
def scripted : Zstd (List QByteArray) where
  init := []
  decompressStream z input room :=
    match z with
    | [] => none
    | o :: outs => if o.length ≤ room then some (outs, if outs = [] then input.length else 0, o) else none
  consumed_le := by
    intro z input room z' n out h
    cases z with
    | nil => cases h
    | cons o outs =>
      simp only at h
      split at h
      · obtain ⟨-, rfl, -⟩ := by simpa using h
        split <;> omega
      · cases h
  produced_le := by
    intro z input room z' n out h
    cases z with
    | nil => cases h
    | cons o outs =>
      simp only at h
      split at h
      · obtain ⟨-, -, rfl⟩ := by simpa using h
        assumption
      · cases h
  calls z _ _ := z.length
  calls_lt := by
    intro z input room z' n out h room' _
    cases z with
    | nil => cases h
    | cons o outs =>
      simp only at h
      split at h
      · obtain ⟨rfl, -, -⟩ := by simpa using h
        exact Nat.lt_succ_self _
      · cases h

def scriptedEnv (mmapLen : Nat) : Env (List QByteArray) where
  bigEndian := false
  hasCompressed := true
  mmapLen := mmapLen
  zstd := scripted
  parseTracingData := fun t _ => t

theorem scripted_calls (mmapLen : Nat) : ∀ (o : QByteArray) (outs : List QByteArray) (pos : Nat),
    2 * (pos + (o :: outs).flatten.length) ≤ mmapLen →
      Calls (scriptedEnv mmapLen) mmapLen (o :: outs) [0] { dst := pos, size := mmapLen - pos, pos := pos } (o :: outs) []
  | o, outs, pos, h => by
    rw [List.flatten_cons, List.length_append] at h
    have hcall : callZstd (scriptedEnv mmapLen) (o :: outs) [0] { dst := pos, size := mmapLen - pos, pos := pos }
        = some (outs, if outs = [] then 1 else 0, o) := by
      unfold callZstd
      simp only
      rw [if_neg (by omega)]
      exact if_pos (by omega)
    refine .call (by simp) hcall ?_
    cases outs with
    | nil => exact .done
    | cons o' outs =>
      rw [if_neg (by simp), List.drop_zero]
      exact scripted_calls mmapLen o' outs (pos + o.length) (by omega)

theorem exists_two : ∀ lengths : List Nat, 1 < (lengths.filter (0 < ·)).length →
    ∃ pre n post, lengths = pre ++ n :: post ∧ (∀ m ∈ pre, m = 0) ∧ 0 < n ∧ 0 < post.sum
  | [], h => absurd h (by decide)
  | n :: lengths, h => by
    by_cases hn : 0 < n
    · rw [List.filter_cons_of_pos (by simpa using hn), List.length_cons] at h
      obtain ⟨m, hm⟩ := List.exists_mem_of_length_pos (Nat.lt_of_succ_lt_succ h)
      obtain ⟨hmem, hpos⟩ := List.mem_filter.1 hm
      exact ⟨[], n, lengths, rfl, by simp, hn, List.sum_pos_iff_exists_pos_nat.2 ⟨m, hmem, by simpa using hpos⟩⟩
    · rw [List.filter_cons_of_neg (by simpa using hn)] at h
      obtain ⟨pre, m, post, rfl, hpre, hm, hpost⟩ := exists_two lengths h
      refine ⟨n :: pre, m, post, rfl, fun k hk => ?_, hm, hpost⟩
      rcases List.mem_cons.1 hk with rfl | hk
      · omega
      · exact hpre k hk

/-- Outputs of these lengths, of nothing but ones. -/
def ones (lengths : List Nat) : List QByteArray := lengths.map fun n => List.replicate n 1

theorem flatten_ones : ∀ lengths : List Nat, (ones lengths).flatten = List.replicate lengths.sum 1
  | [] => rfl
  | n :: lengths => by
    rw [ones, List.map_cons, List.flatten_cons, ← ones, flatten_ones lengths, List.sum_cons,
      List.replicate_append_replicate]

theorem length_ones (lengths : List Nat) : (ones lengths).map List.length = lengths := by
  simp [ones, List.map_map, Function.comp_def]

theorem writes_append_of_empty : ∀ (pre outs : List QByteArray) (memory : QByteArray) (pos : Nat), (∀ o ∈ pre, o = []) →
    writes memory pos (pre ++ outs) = writes memory pos outs
  | [], _, _, _, _ => rfl
  | o :: pre, outs, memory, pos, h => by
    obtain rfl := h o List.mem_cons_self
    rw [List.cons_append, writes, overwrite_nil, List.length_nil, Nat.add_zero]
    exact writes_append_of_empty pre outs memory pos fun o ho => h o (List.mem_cons_of_mem _ ho)

/-- Where two calls produce something, a byte behind what the first one produced is never written. -/
theorem getElem?_writes_gap {pre post : List Nat} {n : Nat} (hpre : ∀ m ∈ pre, m = 0) (hn : 0 < n)
    {memory : QByteArray} (hlen : n < memory.length)
    (hroom : ∀ before o after, ones (pre ++ n :: post) = before ++ o :: after →
      2 * before.flatten.length + o.length ≤ memory.length) :
    (writes memory 0 (ones (pre ++ n :: post)))[n]? = memory[n]? := by
  have hempty : ∀ o ∈ ones pre, o = [] := by
    intro o ho
    obtain ⟨m, hm, rfl⟩ := List.mem_map.1 ho
    rw [hpre m hm]
    rfl
  have hsplit : ones (pre ++ n :: post) = ones pre ++ List.replicate n 1 :: ones post := by
    rw [ones, List.map_append, List.map_cons]
    rfl
  have hover := length_overwrite memory 0 (List.replicate n 1)
    (by rw [List.length_replicate]; omega)
  rw [hsplit, writes_append_of_empty _ _ _ _ hempty, writes, Nat.add_zero, Nat.zero_add,
    getElem?_writes_of_lt _ _ _ n (by rw [List.length_replicate]; omega) fun before o after h => ?_]
  · rw [overwrite_zero, List.getElem?_append_right (by rw [List.length_replicate]), List.length_replicate,
      Nat.sub_self, List.getElem?_drop, Nat.add_zero]
  · have := hroom (ones pre ++ List.replicate n 1 :: before) o after (by rw [hsplit, h]; simp)
    rw [List.flatten_append, List.flatten_cons, List.length_append, List.length_append] at this
    rw [hover]
    omega

/-- **The decompress buffer is what is left over and then the output of every call, if and only if at most one of the
calls produces anything**, for calls that produce outputs of these lengths. -/
theorem decompress_eq_iff (lengths : List Nat) :
    (∀ (δ : Type) (E : Env δ) (z z' : δ) (buffer input : QByteArray) (remaining : Nat) (outs : List QByteArray),
        remaining ≤ buffer.length → outs.map List.length = lengths →
        Calls E E.mmapLen z input { dst := 0, size := E.mmapLen, pos := 0 } outs z' →
        decompress E z buffer remaining input = some (z', buffer.take remaining ++ outs.flatten))
      ↔ (lengths.filter (0 < ·)).length ≤ 1 := by
  constructor
  · intro h
    by_contra hmany
    obtain ⟨pre, n, post, rfl, hpre, hn, hpost⟩ := exists_two lengths (by omega)
    -- the library takes its input with the last call, and the buffer is as long as the outputs need
    obtain ⟨o, outs, hcons⟩ : ∃ o outs, ones (pre ++ n :: post) = o :: outs := by
      cases pre with
      | nil => exact ⟨_, _, rfl⟩
      | cons m pre => exact ⟨_, _, rfl⟩
    have hzero : pre.sum = 0 := List.sum_eq_zero_iff_forall_eq_nat.2 hpre
    have hsum : (pre ++ n :: post).sum = n + post.sum := by
      rw [List.sum_append, List.sum_cons, hzero, Nat.zero_add]
    have hflat : (ones (pre ++ n :: post)).flatten.length = n + post.sum := by
      rw [flatten_ones, List.length_replicate, hsum]
    have hcalls := scripted_calls (2 * (n + post.sum)) o outs 0 (by rw [← hcons, hflat]; omega)
    rw [← hcons] at hcalls
    have hroom := hcalls.room rfl
    have hresult := h _ (scriptedEnv (2 * (n + post.sum))) _ _ [] [0] 0 _ (Nat.zero_le _) (length_ones _) hcalls
    rw [decompress_of_calls (Nat.zero_le _) hcalls] at hresult
    have hbytes := congrArg (fun result => result.2[n]?) (Option.some.inj hresult)
    simp only [List.take_zero, List.nil_append, Nat.add_zero, List.drop_zero] at hbytes
    rw [hflat, List.getElem?_take_of_lt (by omega),
      getElem?_writes_gap hpre hn (by rw [length_resize]; show n < 2 * _; omega)
        fun before o after hsplit => ?_] at hbytes
    · rw [flatten_ones, hsum, List.getElem?_replicate, if_pos (by omega), resize, List.take_nil, List.nil_append,
        List.getElem?_replicate, if_pos (by show n < 2 * _ - 0; omega)] at hbytes
      exact absurd hbytes (by decide)
    · rw [length_resize]
      have := hroom before o after hsplit
      rw [Nat.zero_add] at this
      exact this
  · intro hone δ E z z' buffer input remaining outs hremaining hlengths hcalls
    have hone' : (outs.filter (fun o => o ≠ [])).length ≤ 1 := by
      have hmap : lengths.filter (0 < ·) = (outs.filter (fun o => o ≠ [])).map List.length := by
        rw [← hlengths, List.filter_map]
        congr 1
        refine List.filter_congr fun o _ => ?_
        simp [List.length_pos_iff]
      rw [hmap, List.length_map] at hone
      exact hone
    have hwrites := decompress_of_calls hremaining hcalls
    rw [writes_of_one outs _ hone'] at hwrites
    exact hwrites

/-- Two calls that produce a byte each: the second byte of the buffer is not the second call's. -/
theorem decompress_twoCalls :
    Calls (scriptedEnv 4) 4 [[1], [2]] [0] { dst := 0, size := 4, pos := 0 } [[1], [2]] []
      ∧ decompress (scriptedEnv 4) [[1], [2]] [] 0 [0] = some ([], [1, 0])
      ∧ decompress (scriptedEnv 4) [[1], [2]] [] 0 [0] ≠ some ([], [[1], [2]].flatten) :=
  ⟨scripted_calls 4 [1] [[2]] 0 (by decide), by decide, by decide⟩

end PerfData
end PerfParser
