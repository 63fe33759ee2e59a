import Mathlib.Data.List.Basic

/-!
# Byte memories and byte buffers

A memory is a total map from addresses to bytes; a buffer is a list of bytes of a fixed length.

* `store`, `load`: overwriting and reading a range of a memory; `store_add` says what is found in
  the range, `store_of_outside` that nothing else changes.
* `lastWritten`: what a log of writes leaves at an address, told without memories; a memory to which
  the writes of a log are applied one by one holds it (`store_lastWritten`).
* `overwrite`: copying bytes into a buffer at an offset, clipped at the buffer's end;
  `take_overwrite` is the case that fits.
-/

namespace Acromegaly.Found

variable {α : Type*}

/-! ## Memories -/

/-- The memory after `bs` has been stored from address `a` on. -/
def store (mem : ℕ → α) (a : ℕ) (bs : List α) : ℕ → α := fun i =>
  if a ≤ i then bs[i - a]?.getD (mem i) else mem i

/-- The `n` values from address `a` on. -/
def load (mem : ℕ → α) (a n : ℕ) : List α := (List.range n).map fun i => mem (a + i)

@[simp] theorem length_load (mem : ℕ → α) (a n : ℕ) : (load mem a n).length = n := by
  simp [load]

theorem load_succ (mem : ℕ → α) (a n : ℕ) : load mem a (n + 1) = mem a :: load mem (a + 1) n := by
  unfold load
  rw [List.range_succ_eq_map, List.map_cons, List.map_map, Nat.add_zero]
  congr 1
  apply List.map_congr_left
  intro i _
  show mem (a + (i + 1)) = mem (a + 1 + i)
  rw [Nat.add_right_comm, Nat.add_assoc]

theorem load_eq_cons {mem : ℕ → α} {a n : ℕ} {b : α} {bs : List α} :
    load mem a n = b :: bs ↔ ∃ m, n = m + 1 ∧ mem a = b ∧ load mem (a + 1) m = bs := by
  cases n with
  | zero => simp [load]
  | succ m =>
      rw [load_succ, List.cons.injEq]
      constructor
      · rintro ⟨hb, hbs⟩
        exact ⟨m, rfl, hb, hbs⟩
      · rintro ⟨m', hm, hb, hbs⟩
        rw [Nat.succ.inj hm]
        exact ⟨hb, hbs⟩

/-- Within the range the stored values are found. -/
theorem store_add {mem : ℕ → α} {a : ℕ} {bs : List α} {i : ℕ} (h : i < bs.length) :
    store mem a bs (a + i) = bs[i] := by
  unfold store
  rw [if_pos (by omega), Nat.add_sub_cancel_left, List.getElem?_eq_getElem h, Option.getD_some]

/-- Outside the range nothing changes. -/
theorem store_of_outside {mem : ℕ → α} {a : ℕ} {bs : List α} {i : ℕ}
    (h : i < a ∨ a + bs.length ≤ i) : store mem a bs i = mem i := by
  unfold store
  split_ifs with hle
  · rw [List.getElem?_eq_none (by omega), Option.getD_none]
  · rfl

/-! ## Logs of writes -/

/-- What a log of writes, newest first, leaves at address `i`: the byte of the newest write that
covers it, or the initial one if none does. -/
def lastWritten (mem : ℕ → α) (i : ℕ) : List (ℕ × List α) → α
  | [] => mem i
  | (a, bs) :: log =>
      if a ≤ i then
        match bs[i - a]? with
        | some b => b
        | none => lastWritten mem i log
      else lastWritten mem i log

/-- The next write of a log is stored in the memory the earlier ones leave. -/
theorem store_lastWritten (mem : ℕ → α) (a : ℕ) (bs : List α) (log : List (ℕ × List α)) :
    store (fun i => lastWritten mem i log) a bs = fun i => lastWritten mem i ((a, bs) :: log) := by
  funext i
  unfold store
  simp only [lastWritten]
  split_ifs with hle
  · cases bs[i - a]? with
    | some b => rfl
    | none => rfl
  · rfl

/-! ## Buffers -/

/-- Copy `bs` into the buffer `buf` from offset `off` on; what lies beyond the end is dropped. -/
def overwrite (buf : List α) (off : ℕ) (bs : List α) : List α :=
  (buf.take off ++ bs ++ buf.drop (off + bs.length)).take buf.length

/-- A copy that fits is found in the buffer. -/
theorem take_overwrite {buf : List α} {off : ℕ} {bs : List α}
    (h : off + bs.length ≤ buf.length) :
    (overwrite buf off bs).take (off + bs.length) = buf.take off ++ bs := by
  unfold overwrite
  have hlen : (buf.take off ++ bs).length = off + bs.length := by
    rw [List.length_append, List.length_take, Nat.min_eq_left (by omega)]
  rw [List.take_take, Nat.min_eq_left h, List.take_append_of_le_length (by omega)]
  exact List.take_of_length_le (by omega)

end Acromegaly.Found
