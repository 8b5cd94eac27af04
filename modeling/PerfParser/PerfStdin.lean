import PerfParser.Records
import Mathlib.Data.List.Basic
/-!
# PerfStdin — the device over the standard input (`perfstdin.cpp`)

`PerfStdin` buffers what `fread` delivers, and hands it out in the same order.  How much a call to `fread` delivers, and
whether it notices the end, is arbitrary.  An assertion that fails is `none`.
-/
namespace PerfParser

/-! ## The standard input -/

/-- The end of a call to `fread`: the most it delivers, and what it finds where that is short. -/
structure Fread where
  count : Nat
  seesEnd : Bool
  seesError : Bool

/-- `stdin`: all it ever holds, how much of that was delivered, and its indicators. -/
structure Stdin where
  content : QByteArray
  offset : Nat := 0
  feof : Bool := false
  ferror : Bool := false
  calls : Nat := 0
deriving DecidableEq, Repr

namespace Stdin

def unread (s : Stdin) : QByteArray := s.content.drop s.offset

/-- `feof(stdin) || ferror(stdin)`. -/
def atEnd (s : Stdin) : Bool := s.feof || s.ferror

/-- `fread` of up to `n` bytes, which ends as `ends` says. -/
def fread (s : Stdin) (ends : Fread) (n : Nat) : Stdin × QByteArray :=
  let bytes := s.unread.take (min n ends.count)
  ({ s with
      offset := s.offset + bytes.length
      feof := s.feof || (ends.seesEnd && bytes.length < n && s.offset + bytes.length = s.content.length)
      ferror := s.ferror || (ends.seesError && bytes.length < n)
      calls := s.calls + 1 }, bytes)

end Stdin

/-! ## The device -/

/-- The sizes of the buffer are `int`s, which never leave the range from 0 to `maxBufferSize`. -/
structure PerfStdin where
  buffer : QByteArray
  bufferPos : Nat := 0
  bufferUsed : Nat := 0
  stdin : Stdin
deriving DecidableEq, Repr

namespace PerfStdin

def minBufferSize : Nat := 1 <<< 10
def maxBufferSize : Nat := 1 <<< 30

/-- The device after `open`. -/
def opened (content : QByteArray) : PerfStdin where
  buffer := List.replicate minBufferSize 0
  stdin := { content := content }

def bufferedAvailable (p : PerfStdin) : Nat := p.bufferUsed - p.bufferPos

/-- What is in the buffer from `m_bufferPos` on. -/
def buffered (p : PerfStdin) : QByteArray := (p.buffer.drop p.bufferPos).take p.bufferedAvailable

/-- `PerfStdin::resizeBuffer`.  The new buffer is not initialised. -/
def resizeBuffer (p : PerfStdin) (newSize : Nat) : Option PerfStdin :=
  if newSize < p.bufferedAvailable then none
  else some { p with
    buffer := p.buffered ++ List.replicate (newSize - p.bufferedAvailable) 0
    bufferUsed := p.bufferedAvailable
    bufferPos := 0 }

/-- Every call to `fread`, by its number. -/
abbrev Behaviour := Nat → Fread

variable (ends : Behaviour)

/-- The bytes that `fread` puts into the buffer. -/
def receive (p : PerfStdin) : Option (PerfStdin × Nat) :=
  let (stdin, bytes) := p.stdin.fread (ends p.stdin.calls) (p.buffer.length - p.bufferUsed)
  let buffer := p.buffer.take p.bufferUsed ++ bytes ++ p.buffer.drop (p.bufferUsed + bytes.length)
  let bufferUsed := p.bufferUsed + bytes.length
  if buffer.length < bufferUsed then none
  else some ({ p with buffer := buffer, bufferUsed := bufferUsed, stdin := stdin }, bytes.length)

/-- The buffer starts over where nothing is left in it. -/
def rewind (p : PerfStdin) : PerfStdin :=
  if p.bufferUsed = p.bufferPos then { p with bufferPos := 0, bufferUsed := 0 } else p

/-- The buffer has the size that is asked for. -/
def reserve (p : PerfStdin) (targetBufferSize : Int) : Option PerfStdin :=
  let targetBufferSize := min targetBufferSize maxBufferSize
  if targetBufferSize > p.buffer.length then p.resizeBuffer targetBufferSize.toNat else some p

/-- There is room at the end of the buffer, as far as it may grow. -/
def makeRoom (p : PerfStdin) : Option PerfStdin :=
  if p.bufferUsed = p.buffer.length then
    if p.bufferPos = 0 then
      p.resizeBuffer (if p.bufferUsed ≤ maxBufferSize / 2 then p.bufferUsed * 2 else maxBufferSize)
    else p.resizeBuffer p.bufferUsed
  else some p

/-- `PerfStdin::fillBuffer`. -/
def fillBuffer (p : PerfStdin) (targetBufferSize : Int) : Option (PerfStdin × Nat) := do
  let p ← p.rewind.reserve targetBufferSize
  let p ← p.makeRoom
  p.receive ends

/-- The loop of `readData`, with what was copied to `data` so far. -/
def readLoop (maxlen : Nat) : Nat → PerfStdin → QByteArray → Option (PerfStdin × QByteArray)
  | 0, _, _ => none
  | rounds + 1, p, data =>
    if p.bufferPos ≤ p.buffer.length ∧ p.bufferUsed ≤ p.buffer.length ∧ p.bufferPos ≤ p.bufferUsed then
      let buffered := min p.bufferedAvailable (maxlen - data.length)
      let data := data ++ (p.buffer.drop p.bufferPos).take buffered
      let p := { p with bufferPos := p.bufferPos + buffered }
      if data.length < maxlen then do
        let (p, read) ← p.fillBuffer ends maxlen
        if read > 0 then readLoop maxlen rounds p data else some (p, data)
      else some (p, data)
    else none

/-- `PerfStdin::readData`, with the result and the bytes.  A round of its loop, but for the last one, is after a call to
`fread` that delivered something. -/
def readData (p : PerfStdin) (maxlen : Int) : Option (PerfStdin × Int × QByteArray) :=
  if maxlen ≤ 0 then some (p, 0, [])
  else do
    let (p, data) ← readLoop ends maxlen.toNat (p.stdin.unread.length + 1) p []
    if data.length > 0 ∨ p.bufferedAvailable = 0 then
      some (p, if data.length = 0 ∧ p.stdin.atEnd then -1 else data.length, data)
    else none

/-- What `receiveData` does besides filling the buffer. -/
inductive Signal
  | readyRead
  | close
  | nothing
deriving DecidableEq, Repr

/-- `PerfStdin::receiveData`. -/
def receiveData (p : PerfStdin) : Option (PerfStdin × Signal) := do
  let (p, read) ← p.fillBuffer ends (-1)
  some (p, if read > 0 then .readyRead else if p.stdin.atEnd then .close else .nothing)

inductive Call
  | receiveData
  | readData (maxlen : Int)
deriving DecidableEq, Repr

/-- A call, with all bytes that were returned before it and after it. -/
def apply (s : PerfStdin × QByteArray) : Call → Option (PerfStdin × QByteArray)
  | .receiveData => do
    let (p, _) ← s.1.receiveData ends
    some (p, s.2)
  | .readData maxlen => do
    let (p, _, data) ← s.1.readData ends maxlen
    some (p, s.2 ++ data)

def run (s : PerfStdin × QByteArray) (calls : List Call) : Option (PerfStdin × QByteArray) :=
  calls.foldlM (apply ends) s

/-! ## The invariant -/

/-- The device is a queue: what was returned and what is buffered is what was delivered. -/
structure Fifo (content : QByteArray) (p : PerfStdin) (returned : QByteArray) : Prop where
  pos_le : p.bufferPos ≤ p.bufferUsed
  used_le : p.bufferUsed ≤ p.buffer.length
  length_le : p.buffer.length ≤ maxBufferSize
  content_eq : p.stdin.content = content
  offset_le : p.stdin.offset ≤ content.length
  order : returned ++ p.buffered = content.take p.stdin.offset
  feof : p.stdin.feof = true → p.stdin.offset = content.length

variable {content returned : QByteArray} {p : PerfStdin}

theorem buffered_length (hu : p.bufferUsed ≤ p.buffer.length) : p.buffered.length = p.bufferedAvailable := by
  unfold buffered bufferedAvailable
  rw [List.length_take, List.length_drop]
  omega

theorem opened_fifo (content : QByteArray) : Fifo content (opened content) [] where
  pos_le := Nat.le_refl 0
  used_le := Nat.zero_le _
  length_le := by
    rw [opened, List.length_replicate]
    decide
  content_eq := rfl
  offset_le := Nat.zero_le _
  order := rfl
  feof h := by cases h

/-! ## Filling the buffer -/

theorem Fifo.rewind (h : Fifo content p returned) : Fifo content p.rewind returned ∧
    p.rewind.bufferedAvailable = p.bufferedAvailable ∧ p.rewind.stdin = p.stdin := by
  unfold PerfStdin.rewind
  split
  · rename_i he
    have hnil : p.buffered = [] := by simp [buffered, bufferedAvailable, he]
    have horder := h.order
    rw [hnil] at horder
    exact ⟨⟨Nat.le_refl 0, Nat.zero_le _, h.length_le, h.content_eq, h.offset_le, horder, h.feof⟩,
      by simp [bufferedAvailable, he], rfl⟩
  · exact ⟨h, rfl, rfl⟩

theorem Fifo.resizeBuffer (h : Fifo content p returned) {newSize : Nat} (hsize : p.bufferedAvailable ≤ newSize)
    (hmax : newSize ≤ maxBufferSize) : ∃ p', p.resizeBuffer newSize = some p' ∧ Fifo content p' returned ∧
      p'.bufferedAvailable = p.bufferedAvailable ∧ p'.stdin = p.stdin := by
  have hlen := buffered_length h.used_le
  refine ⟨_, if_neg (Nat.not_lt.2 hsize), ⟨Nat.zero_le _, ?_, ?_, h.content_eq, h.offset_le, ?_, h.feof⟩, rfl, rfl⟩
  · simp only [List.length_append, List.length_replicate, hlen]
    omega
  · simp only [List.length_append, List.length_replicate, hlen]
    omega
  · rw [← h.order]
    congr 1
    rw [buffered, List.drop_zero, ← hlen]
    exact List.take_left' rfl

theorem Fifo.reserve (h : Fifo content p returned) (targetBufferSize : Int) :
    ∃ p', p.reserve targetBufferSize = some p' ∧ Fifo content p' returned ∧
      p'.bufferedAvailable = p.bufferedAvailable ∧ p'.stdin = p.stdin := by
  have hused := h.used_le
  unfold PerfStdin.reserve
  dsimp only
  split
  · rename_i hlt
    exact h.resizeBuffer (by unfold bufferedAvailable; omega) (by omega)
  · exact ⟨p, rfl, h, rfl, rfl⟩

theorem Fifo.makeRoom (h : Fifo content p returned) : ∃ p', p.makeRoom = some p' ∧ Fifo content p' returned ∧
    p'.bufferedAvailable = p.bufferedAvailable ∧ p'.stdin = p.stdin := by
  have hused := h.used_le
  have hlen := h.length_le
  have hmax : maxBufferSize = 1073741824 := rfl
  unfold PerfStdin.makeRoom
  split
  · split
    · refine h.resizeBuffer ?_ ?_
      · unfold bufferedAvailable
        split <;> omega
      · split <;> omega
    · exact h.resizeBuffer (by unfold bufferedAvailable; omega) (by omega)
  · exact ⟨p, rfl, h, rfl, rfl⟩

/-- **What `fread` delivers is what comes next.** -/
theorem fread_take (s : Stdin) (e : Fread) (n : Nat) :
    s.content.take (s.fread e n).1.offset = s.content.take s.offset ++ (s.fread e n).2 := by
  have hbytes : (s.fread e n).2 = s.unread.take (s.fread e n).2.length :=
    List.prefix_iff_eq_take.1 (List.take_prefix _ _)
  rw [show (s.fread e n).1.offset = s.offset + (s.fread e n).2.length from rfl, List.take_add, hbytes]
  simp [Stdin.unread]

theorem fread_length (s : Stdin) (e : Fread) (n : Nat) :
    (s.fread e n).2.length ≤ n ∧ (s.fread e n).2.length ≤ s.unread.length := by
  have hlen : (s.fread e n).2.length = min (min n e.count) s.unread.length := List.length_take ..
  omega

theorem fread_feof {s : Stdin} (h : s.feof = true → s.offset = s.content.length) (e : Fread) (n : Nat) :
    (s.fread e n).1.feof = true → (s.fread e n).1.offset = s.content.length := by
  have hread := (fread_length s e n).2
  rw [Stdin.unread, List.length_drop] at hread
  have hoffset : (s.fread e n).1.offset = s.offset + (s.fread e n).2.length := rfl
  rw [show (s.fread e n).1.feof = (s.feof || (e.seesEnd && (s.fread e n).2.length < n &&
    s.offset + (s.fread e n).2.length = s.content.length)) from rfl, hoffset]
  intro hend
  rcases Bool.or_eq_true_iff.1 hend with hend | hend
  · have := h hend
    omega
  · simp only [Bool.and_eq_true, decide_eq_true_eq] at hend
    exact hend.2

theorem buffered_append {buffer : QByteArray} {pos used : Nat} (hpos : pos ≤ used) (hused : used ≤ buffer.length)
    (bytes rest : QByteArray) : ((buffer.take used ++ bytes ++ rest).drop pos).take (used + bytes.length - pos) =
      (buffer.drop pos).take (used - pos) ++ bytes := by
  have htake : (buffer.take used).length = used := by
    rw [List.length_take]
    omega
  rw [List.append_assoc, List.drop_append_of_le_length (by omega), List.drop_take, ← List.append_assoc]
  refine List.take_left' ?_
  rw [List.length_append, List.length_take, List.length_drop]
  omega

theorem Fifo.receive (ends : Behaviour) (h : Fifo content p returned) : ∃ p' read, p.receive ends = some (p', read) ∧
    Fifo content p' returned ∧ p'.bufferedAvailable = p.bufferedAvailable + read ∧
    p'.stdin.unread.length + read = p.stdin.unread.length := by
  have hpos := h.pos_le
  have hused := h.used_le
  have hlength := h.length_le
  have hcontent := h.content_eq
  have horder := fread_take p.stdin (ends p.stdin.calls) (p.buffer.length - p.bufferUsed)
  have hfeof := fread_feof (s := p.stdin) (by rw [hcontent]; exact h.feof) (ends p.stdin.calls)
    (p.buffer.length - p.bufferUsed)
  obtain ⟨hread, hunread⟩ := fread_length p.stdin (ends p.stdin.calls) (p.buffer.length - p.bufferUsed)
  have hoffset : (p.stdin.fread (ends p.stdin.calls) (p.buffer.length - p.bufferUsed)).1.offset =
    p.stdin.offset + (p.stdin.fread (ends p.stdin.calls) (p.buffer.length - p.bufferUsed)).2.length := rfl
  have hkeep : (p.stdin.fread (ends p.stdin.calls) (p.buffer.length - p.bufferUsed)).1.content = p.stdin.content := rfl
  unfold PerfStdin.receive
  generalize p.stdin.fread (ends p.stdin.calls) (p.buffer.length - p.bufferUsed) = r at *
  obtain ⟨stdin, bytes⟩ := r
  dsimp only at *
  have hnew : (p.buffer.take p.bufferUsed ++ bytes ++ p.buffer.drop (p.bufferUsed + bytes.length)).length =
      p.buffer.length := by
    simp only [List.length_append, List.length_take, List.length_drop]
    omega
  rw [hnew, if_neg (by omega)]
  rw [Stdin.unread, List.length_drop] at hunread
  refine ⟨_, bytes.length, rfl, ⟨?_, ?_, ?_, ?_, ?_, ?_, ?_⟩, ?_, ?_⟩
  · exact Nat.le_trans hpos (Nat.le_add_right _ _)
  · dsimp only
    rw [hnew]
    omega
  · dsimp only
    rw [hnew]
    exact hlength
  · exact hkeep.trans hcontent
  · have := h.offset_le
    rw [hoffset]
    rw [hcontent] at hunread
    omega
  · rw [hcontent] at horder
    refine (congrArg (returned ++ ·) (buffered_append hpos hused bytes _)).trans ?_
    rw [horder, ← h.order, List.append_assoc]
    rfl
  · rw [← hcontent]
    exact hfeof
  · unfold bufferedAvailable
    dsimp only
    omega
  · rw [Stdin.unread, Stdin.unread, hkeep, hoffset, List.length_drop, List.length_drop]
    omega

/-- **`fillBuffer` keeps the queue**, and what it delivers comes from what is unread. -/
theorem Fifo.fillBuffer (ends : Behaviour) (h : Fifo content p returned) (targetBufferSize : Int) :
    ∃ p' read, p.fillBuffer ends targetBufferSize = some (p', read) ∧ Fifo content p' returned ∧
      p'.bufferedAvailable = p.bufferedAvailable + read ∧
      p'.stdin.unread.length + read = p.stdin.unread.length := by
  obtain ⟨h₁, ha₁, hs₁⟩ := h.rewind
  obtain ⟨p₂, he₂, h₂, ha₂, hs₂⟩ := h₁.reserve targetBufferSize
  obtain ⟨p₃, he₃, h₃, ha₃, hs₃⟩ := h₂.makeRoom
  obtain ⟨p₄, read, he₄, h₄, ha₄, hs₄⟩ := h₃.receive ends
  rw [ha₃, ha₂, ha₁] at ha₄
  rw [hs₃, hs₂, hs₁] at hs₄
  refine ⟨p₄, read, ?_, h₄, ha₄, hs₄⟩
  simp only [PerfStdin.fillBuffer, he₂, he₃, he₄, Option.bind_eq_bind, Option.bind_some]

/-! ## Reading -/

/-- What a round of the loop copies goes from the buffer to what is returned. -/
theorem Fifo.copy (h : Fifo content p returned) {n : Nat} (hn : n ≤ p.bufferedAvailable) :
    Fifo content { p with bufferPos := p.bufferPos + n } (returned ++ (p.buffer.drop p.bufferPos).take n) where
  pos_le := by
    unfold bufferedAvailable at hn
    have := h.pos_le
    dsimp only
    omega
  used_le := h.used_le
  length_le := h.length_le
  content_eq := h.content_eq
  offset_le := h.offset_le
  order := by
    rw [← h.order, List.append_assoc]
    congr 1
    unfold buffered bufferedAvailable at *
    dsimp only
    rw [← List.drop_drop, Nat.sub_add_eq, ← List.take_add, Nat.add_sub_cancel' hn]
  feof := h.feof

/-- **The loop of `readData`**: it returns, within what is asked for, and copies nothing only where nothing is left. -/
theorem readLoop_fifo (ends : Behaviour) (maxlen : Nat) : ∀ (rounds : Nat) (p : PerfStdin) (data : QByteArray),
    Fifo content p (returned ++ data) → data.length < maxlen → p.stdin.unread.length < rounds →
    ∃ p' data', readLoop ends maxlen rounds p data = some (p', data') ∧ Fifo content p' (returned ++ data') ∧
      data'.length ≤ maxlen ∧ (data' = [] → p'.bufferedAvailable = 0)
  | 0, _, _, _, _, hrounds => absurd hrounds (Nat.not_lt_zero _)
  | rounds + 1, p, data, h, hdata, hrounds => by
    have hcopy := h.copy (Nat.min_le_left p.bufferedAvailable (maxlen - data.length))
    have hlen : (data ++ (p.buffer.drop p.bufferPos).take (min p.bufferedAvailable (maxlen - data.length))).length =
        data.length + min p.bufferedAvailable (maxlen - data.length) := by
      have := h.used_le
      unfold bufferedAvailable
      rw [List.length_append, List.length_take, List.length_drop]
      omega
    rw [List.append_assoc] at hcopy
    unfold readLoop
    rw [if_pos ⟨Nat.le_trans h.pos_le h.used_le, h.used_le, h.pos_le⟩]
    dsimp only
    generalize hdata' : data ++ (p.buffer.drop p.bufferPos).take (min p.bufferedAvailable (maxlen - data.length))
      = data' at *
    split
    · rename_i hlt
      -- the buffer is empty now
      have hempty : ({ p with bufferPos := p.bufferPos + min p.bufferedAvailable (maxlen - data.length) } :
          PerfStdin).bufferedAvailable = 0 := by
        have := h.pos_le
        unfold bufferedAvailable at hlen ⊢
        dsimp only
        omega
      obtain ⟨p', read, hfill, h', havailable, hunread⟩ := hcopy.fillBuffer ends maxlen
      rw [hfill, Option.bind_eq_bind, Option.bind_some]
      dsimp only at hunread ⊢
      split
      · exact readLoop_fifo ends maxlen rounds p' data' h' hlt (by omega)
      · refine ⟨p', data', rfl, h', Nat.le_of_lt hlt, fun _ => ?_⟩
        rw [havailable, hempty]
        omega
    · rename_i hge
      refine ⟨_, data', rfl, hcopy, by omega, fun hnil => absurd ?_ hge⟩
      rw [hnil, List.length_nil]
      omega

/-- What a call to `readData` does. -/
structure Reads (content returned : QByteArray) (maxlen : Int) (p : PerfStdin) (read : Int) (data : QByteArray) : Prop
    where
  fifo : Fifo content p (returned ++ data)
  result : read = data.length ∨ (read = -1 ∧ data = [])
  le : data.length ≤ maxlen.toNat
  atEnd : read = -1 → p.buffered = [] ∧ p.stdin.atEnd = true

/-- **`readData` takes from the queue**, and returns -1 only where it is empty and the input at its end. -/
theorem readData_reads (ends : Behaviour) (h : Fifo content p returned) (maxlen : Int) :
    ∃ p' read data, p.readData ends maxlen = some (p', read, data) ∧ Reads content returned maxlen p' read data := by
  unfold readData
  split
  · refine ⟨p, 0, [], rfl, ⟨by rwa [List.append_nil], .inl rfl, Nat.zero_le _, fun h => by cases h⟩⟩
  · rename_i hpos
    obtain ⟨p', data, hloop, hfifo, hle, hempty⟩ := readLoop_fifo ends maxlen.toNat
      (p.stdin.unread.length + 1) p [] (by rwa [List.append_nil]) (by rw [List.length_nil]; omega) (Nat.lt_succ_self _)
    have hassert : data.length > 0 ∨ p'.bufferedAvailable = 0 := by
      cases data with
      | nil => exact .inr (hempty rfl)
      | cons b data => exact .inl (Nat.zero_lt_succ _)
    rw [hloop, Option.bind_eq_bind, Option.bind_some]
    dsimp only
    rw [if_pos hassert]
    refine ⟨p', _, data, rfl, ⟨hfifo, ?_, hle, ?_⟩⟩
    · split
      · rename_i hend
        exact .inr ⟨rfl, List.eq_nil_of_length_eq_zero hend.1⟩
      · exact .inl rfl
    · split
      · rename_i hend
        refine fun _ => ⟨?_, hend.2⟩
        rw [buffered, hempty (List.eq_nil_of_length_eq_zero hend.1), List.take_zero]
      · intro hneg
        omega

/-! ## Runs -/

theorem apply_fifo (ends : Behaviour) (h : Fifo content p returned) (call : Call) :
    ∃ s, apply ends (p, returned) call = some s ∧ Fifo content s.1 s.2 := by
  cases call with
  | receiveData =>
    obtain ⟨p', read, hfill, h', -⟩ := h.fillBuffer ends (-1)
    refine ⟨(p', returned), ?_, h'⟩
    simp only [apply, receiveData, hfill, Option.bind_eq_bind, Option.bind_some]
  | readData maxlen =>
    obtain ⟨p', read, data, hread, h'⟩ := readData_reads ends h maxlen
    refine ⟨(p', returned ++ data), ?_, h'.fifo⟩
    simp only [apply, hread, Option.bind_eq_bind, Option.bind_some]

theorem run_fifo (ends : Behaviour) : ∀ (calls : List Call) {p : PerfStdin} {returned : QByteArray},
    Fifo content p returned →
    ∃ s, run ends (p, returned) calls = some s ∧ Fifo content s.1 s.2
  | [], p, returned, h => ⟨(p, returned), rfl, h⟩
  | call :: calls, p, returned, h => by
    obtain ⟨s, happly, h'⟩ := apply_fifo ends h call
    obtain ⟨s', hrun, h''⟩ := run_fifo ends calls h'
    refine ⟨s', ?_, h''⟩
    rw [run, List.foldlM_cons, happly]
    exact hrun

/-- **The device is a queue over the standard input**, for any order of calls and any way `fread` delivers: no assertion
fails, and `readData` returns -1 only where the queue is empty and the input at its end. -/
theorem stdin_fifo (content : QByteArray) (ends : Behaviour) (calls : List Call) :
    ∃ s, run ends (opened content, []) calls = some s ∧ Fifo content s.1 s.2 ∧
      ∀ maxlen : Int, ∃ p read data, s.1.readData ends maxlen = some (p, read, data) ∧
        Reads content s.2 maxlen p read data := by
  obtain ⟨s, hrun, h⟩ := run_fifo ends calls (opened_fifo content)
  exact ⟨s, hrun, h, fun maxlen => readData_reads ends h maxlen⟩

end PerfStdin
end PerfParser
