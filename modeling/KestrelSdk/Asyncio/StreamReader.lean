import Mathlib.Algebra.GroupWithZero.Nat
import Mathlib.Data.List.Basic

/-! `asyncio.StreamReader.readline()`: lines of a stream that arrives in chunks. -/

namespace KestrelSdk.Asyncio

/-- `asyncio.streams._DEFAULT_LIMIT`. -/
def DEFAULT_LIMIT : Nat := 2 ^ 16

/-- What `readline()` comes to: a line, with what stays in the buffer and what has still to arrive,
or the `ValueError` of a line beyond the limit. -/
inductive Read (α : Type) where
  | line (l : List α) (buffer : List α) (chunks : List (List α))
  | overrun

section Lines

variable {α : Type} {sep : α} {line rest buffer : List α} {chunks : List (List α)}

theorem length_le_line (h : buffer ++ chunks.flatten = line ++ sep :: rest)
    (hmem : sep ∉ buffer) : buffer.length ≤ line.length := by
  by_contra hlt
  have hlt : line.length < buffer.length := Nat.lt_of_not_le hlt
  have hget : (buffer ++ chunks.flatten)[line.length]? = some sep := by
    rw [h, List.getElem?_append_right (Nat.le_refl _), Nat.sub_self]
    rfl
  rw [List.getElem?_append_left hlt] at hget
  exact hmem (List.mem_of_getElem? hget)

/-- What a buffer with a separator starts with. -/
theorem cut_line (h : buffer ++ chunks.flatten = line ++ sep :: rest)
    (hlt : line.length < buffer.length) : buffer.take (line.length + 1) = line ++ [sep] ∧
      buffer.drop (line.length + 1) ++ chunks.flatten = rest := by
  have hlen : (line ++ [sep]).length = line.length + 1 := by
    rw [List.length_append, List.length_singleton]
  have hsplit : line ++ sep :: rest = (line ++ [sep]) ++ rest := by
    rw [List.append_assoc, List.singleton_append]
  constructor
  · calc
      buffer.take (line.length + 1) = (buffer ++ chunks.flatten).take (line.length + 1) :=
        (List.take_append_of_le_length hlt).symm
      _ = line ++ [sep] := by rw [h, hsplit, ← hlen, List.take_left]
  · calc
      buffer.drop (line.length + 1) ++ chunks.flatten
        = (buffer ++ chunks.flatten).drop (line.length + 1) :=
        (List.drop_append_of_le_length hlt).symm
      _ = rest := by rw [h, hsplit, ← hlen, List.drop_left]

theorem mem_of_arrived (h : buffer ++ ([] : List (List α)).flatten = line ++ sep :: rest) :
    sep ∈ buffer := by
  rw [List.flatten_nil, List.append_nil] at h
  rw [h]
  exact List.mem_append_right line List.mem_cons_self

end Lines

variable {α : Type} [DecidableEq α] {sep : α} {limit : Nat}

/-- `readline()`, on a buffer and the chunks that arrive after it up to the end of the stream. -/
def readline (sep : α) (limit : Nat) : List (List α) → List α → Read α
  | [], buffer =>
    if sep ∈ buffer then
      if limit < buffer.idxOf sep then .overrun
      else .line (buffer.take (buffer.idxOf sep + 1)) (buffer.drop (buffer.idxOf sep + 1)) []
    else if limit < buffer.length then .overrun
    else .line buffer [] []
  | chunk :: chunks, buffer =>
    if sep ∈ buffer then
      if limit < buffer.idxOf sep then .overrun
      else
        .line (buffer.take (buffer.idxOf sep + 1)) (buffer.drop (buffer.idxOf sep + 1))
          (chunk :: chunks)
    else if limit < buffer.length then .overrun
    else readline sep limit chunks (buffer ++ chunk)

theorem readline_of_mem {buffer : List α} (h : sep ∈ buffer) (chunks : List (List α)) :
    readline sep limit chunks buffer =
      if limit < buffer.idxOf sep then .overrun
      else .line (buffer.take (buffer.idxOf sep + 1)) (buffer.drop (buffer.idxOf sep + 1)) chunks := by
  cases chunks with
  | nil => simp only [readline, h, if_true]
  | cons chunk chunks => simp only [readline, h, if_true]

variable {line rest buffer : List α} {chunks : List (List α)}

/-- The first separator of a stream. -/
theorem idxOf_line (hline : sep ∉ line) (h : buffer ++ chunks.flatten = line ++ sep :: rest)
    (hmem : sep ∈ buffer) : buffer.idxOf sep = line.length := by
  have hleft : (buffer ++ chunks.flatten).idxOf sep = buffer.idxOf sep :=
    List.idxOf_append_of_mem hmem
  have hright : (line ++ sep :: rest).idxOf sep = line.length := by
    rw [List.idxOf_append_of_notMem hline, List.idxOf_cons_self, Nat.add_zero]
  rw [← hleft, h, hright]

/-- A line whose separator has arrived. -/
theorem readline_arrived (hline : sep ∉ line) (h : buffer ++ chunks.flatten = line ++ sep :: rest)
    (hmem : sep ∈ buffer) : readline sep limit chunks buffer =
      if limit < line.length then .overrun
      else .line (line ++ [sep]) (buffer.drop (line.length + 1)) chunks := by
  have hidx := idxOf_line hline h hmem
  have hlt : line.length < buffer.length := hidx ▸ List.idxOf_lt_length_of_mem hmem
  rw [readline_of_mem hmem, hidx, (cut_line h hlt).1]

/-- A line within the limit is returned whole, however it arrives. -/
theorem readline_within (hline : sep ∉ line) (hle : line.length ≤ limit)
    (h : buffer ++ chunks.flatten = line ++ sep :: rest) :
    ∃ buffer' chunks', readline sep limit chunks buffer = .line (line ++ [sep]) buffer' chunks' ∧
      buffer' ++ chunks'.flatten = rest := by
  induction chunks generalizing buffer with
  | nil =>
    have hmem := mem_of_arrived h
    have hlt : line.length < buffer.length :=
      idxOf_line hline h hmem ▸ List.idxOf_lt_length_of_mem hmem
    refine ⟨_, _, ?_, (cut_line h hlt).2⟩
    rw [readline_arrived hline h hmem, if_neg (Nat.not_lt.2 hle)]
  | cons chunk chunks ih =>
    by_cases hmem : sep ∈ buffer
    · have hlt : line.length < buffer.length :=
        idxOf_line hline h hmem ▸ List.idxOf_lt_length_of_mem hmem
      refine ⟨_, _, ?_, (cut_line h hlt).2⟩
      rw [readline_arrived hline h hmem, if_neg (Nat.not_lt.2 hle)]
    · have hlen := length_le_line h hmem
      have hnot : ¬ limit < buffer.length := by omega
      have hnext : (buffer ++ chunk) ++ chunks.flatten = line ++ sep :: rest := by
        rw [List.append_assoc, ← h, List.flatten_cons]
      obtain ⟨buffer', chunks', hread, hrest⟩ := ih hnext
      refine ⟨buffer', chunks', ?_, hrest⟩
      rw [readline, if_neg hmem, if_neg hnot, hread]

/-- A line beyond the limit is an error, however it arrives. -/
theorem readline_beyond (hline : sep ∉ line) (hlt : limit < line.length)
    (h : buffer ++ chunks.flatten = line ++ sep :: rest) :
    readline sep limit chunks buffer = .overrun := by
  induction chunks generalizing buffer with
  | nil =>
    have hmem := mem_of_arrived h
    rw [readline_arrived hline h hmem, if_pos hlt]
  | cons chunk chunks ih =>
    by_cases hmem : sep ∈ buffer
    · rw [readline_arrived hline h hmem, if_pos hlt]
    · have hnext : (buffer ++ chunk) ++ chunks.flatten = line ++ sep :: rest := by
        rw [List.append_assoc, ← h, List.flatten_cons]
      rw [readline, if_neg hmem]
      split
      · rfl
      · exact ih hnext

end KestrelSdk.Asyncio
