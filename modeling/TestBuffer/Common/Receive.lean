import Mathlib.Data.List.OfFn
/-!
# Receiving into one buffer

A receive overwrites the first bytes of its buffer, as many as the
datagram has and the buffer holds, and leaves the others as they are; a
receive that fails overwrites none. So a buffer that all receives share
holds, past the last datagram's end, what earlier ones left there
(`bufferAfter`), and a value computed from it depends on the last datagram
alone exactly when that datagram covers the bytes the value is computed
from (`record_fill_iff`). Read as words, the buffer is what the last
datagram carried and what it left over (`ofFn_word_receive`).
-/

namespace TestBuffer

/-- An array of 32-bit words, as its bytes. -/
abbrev Buffer (words : ℕ) := Fin (4 * words) → BitVec 8

variable {words : ℕ}

/-- **The word at an index**, its first byte the least significant. -/
def word (b : Buffer words) (k : Fin words) : BitVec 32 :=
  b ⟨4 * k + 3, by omega⟩ ++ b ⟨4 * k + 2, by omega⟩ ++ b ⟨4 * k + 1, by omega⟩ ++
    b ⟨4 * k, by omega⟩

/-- A datagram's payload over what the buffer held. -/
def fill (payload : List (BitVec 8)) (b : Buffer words) : Buffer words :=
  fun i => payload[i.val]?.getD (b i)

/-- How a receive completed. -/
inductive Completion
  | success (payload : List (BitVec 8))
  | failure
  deriving DecidableEq

/-- What a completed receive leaves in the buffer. -/
def Completion.receive (b : Buffer words) : Completion → Buffer words
  | success payload => fill payload b
  | failure => b

/-- The buffer after a sequence of completed receives. -/
def bufferAfter (b : Buffer words) (cs : List Completion) : Buffer words :=
  cs.foldl Completion.receive b

variable {payload : List (BitVec 8)} {b b' : Buffer words} {k : Fin words} {i : Fin (4 * words)}

theorem fill_of_lt (h : i.val < payload.length) : fill payload b i = payload[i.val] := by
  rw [fill, List.getElem?_eq_getElem h, Option.getD_some]

theorem fill_of_le (h : payload.length ≤ i.val) : fill payload b i = b i := by
  rw [fill, List.getElem?_eq_none h, Option.getD_none]

/-- A datagram as long as the buffer replaces all of it. -/
theorem fill_ofFn : fill (List.ofFn b) b' = b := by
  funext i
  rw [fill_of_lt (by rw [List.length_ofFn]; exact i.isLt), List.getElem_ofFn]

/-- One more completion acts on the buffer the others left. -/
theorem bufferAfter_concat (cs : List Completion) (c : Completion) :
    bufferAfter b (cs ++ [c]) = c.receive (bufferAfter b cs) := by
  rw [bufferAfter, List.foldl_append]
  rfl

/-- Words appended are equal only where each is. -/
theorem append_inj {v w : ℕ} {x x' : BitVec v} {y y' : BitVec w} :
    x ++ y = x' ++ y' ↔ x = x' ∧ y = y' := by
  constructor
  · intro h
    have hx := congrArg (BitVec.extractLsb' w v) h
    have hy := congrArg (BitVec.extractLsb' 0 w) h
    rw [BitVec.extractLsb'_append_eq_left, BitVec.extractLsb'_append_eq_left] at hx
    rw [BitVec.extractLsb'_append_eq_right, BitVec.extractLsb'_append_eq_right] at hy
    exact ⟨hx, hy⟩
  · rintro ⟨rfl, rfl⟩
    rfl

/-- A word is its four bytes. -/
theorem word_eq_iff :
    word b k = word b' k ↔ ∀ i : Fin (4 * words), i.val / 4 = k.val → b i = b' i := by
  rw [word, word, append_inj, append_inj, append_inj]
  constructor
  · rintro ⟨⟨⟨h3, h2⟩, h1⟩, h0⟩ i hi
    obtain h | h | h | h : i.val = 4 * k.val + 3 ∨ i.val = 4 * k.val + 2 ∨
        i.val = 4 * k.val + 1 ∨ i.val = 4 * k.val := by omega
    · rw [Fin.ext (b := ⟨4 * k.val + 3, by omega⟩) h, h3]
    · rw [Fin.ext (b := ⟨4 * k.val + 2, by omega⟩) h, h2]
    · rw [Fin.ext (b := ⟨4 * k.val + 1, by omega⟩) h, h1]
    · rw [Fin.ext (b := ⟨4 * k.val, by omega⟩) h, h0]
  · intro h
    exact ⟨⟨⟨h _ (by simp only; omega), h _ (by simp only; omega)⟩, h _ (by simp only; omega)⟩,
      h _ (by simp only; omega)⟩

/-! ## What a value is computed from -/

/-- **Computed from the first `m` bytes**, all of them and no others. -/
def Reads {R : Type*} (record : Buffer words → R) (m : ℕ) : Prop :=
  ∀ b b', record b = record b' ↔ ∀ i : Fin (4 * words), i.val < m → b i = b' i

theorem reads_word_zero (h : 0 < words) : Reads (fun b : Buffer words => word b ⟨0, h⟩) 4 := by
  intro b b'
  rw [word_eq_iff]
  refine forall_congr' fun i => imp_congr_left ?_
  simp only
  omega

theorem reads_word : Reads (word : Buffer words → Fin words → BitVec 32) (4 * words) := by
  intro b b'
  constructor
  · intro h i _
    exact word_eq_iff.mp (congrFun h ⟨i.val / 4, by omega⟩) i rfl
  · intro h
    funext k
    exact word_eq_iff.mpr fun i _ => h i i.isLt

/-- **Nothing is left over exactly where the datagram covers it.** -/
theorem record_fill_iff {R : Type*} {record : Buffer words → R} {m : ℕ} (hr : Reads record m)
    (hm : m ≤ 4 * words) :
    (∀ b b', record (fill payload b) = record (fill payload b')) ↔ m ≤ payload.length := by
  constructor
  · intro h
    by_contra hlt
    -- the first byte past the datagram is one the value is computed from
    have hne := (hr _ _).mp (h (fun _ => 0) (fun _ => 1)) ⟨payload.length, by omega⟩
      (by simp only; omega)
    rw [fill_of_le le_rfl, fill_of_le le_rfl] at hne
    exact absurd hne (by decide)
  · intro h b b'
    refine (hr _ _).mpr fun i hi => ?_
    rw [fill_of_lt (by omega), fill_of_lt (by omega)]

/-! ## What a datagram carries -/

/-- **The words of a payload**, those it carries whole. -/
def payloadWords : List (BitVec 8) → List (BitVec 32)
  | b₀ :: b₁ :: b₂ :: b₃ :: rest => (b₃ ++ b₂ ++ b₁ ++ b₀) :: payloadWords rest
  | _ => []

/-- The words a completion brings, as many as the buffer takes. -/
def Completion.own (words : ℕ) : Completion → List (BitVec 32)
  | success payload => (payloadWords payload).take words
  | failure => []

/-- The words of the buffer after a completion that it did not bring. -/
def Completion.leftover (b : Buffer words) (c : Completion) : List (BitVec 32) :=
  (List.ofFn (word (c.receive b))).drop (c.own words).length

theorem length_payloadWords : (payloadWords payload).length = payload.length / 4 := by
  induction payload using payloadWords.induct with
  | case1 b₀ b₁ b₂ b₃ rest ih =>
    rw [payloadWords, List.length_cons, ih]
    simp only [List.length_cons]
    omega
  | case2 payload h =>
    rcases payload with _ | ⟨b₀, _ | ⟨b₁, _ | ⟨b₂, _ | ⟨b₃, rest⟩⟩⟩⟩
    · rfl
    · simp [payloadWords]
    · simp [payloadWords]
    · simp [payloadWords]
    · exact absurd rfl (h b₀ b₁ b₂ b₃ rest)

/-- A word a payload carries whole is the one a receive leaves there. -/
theorem word_fill (hk : k.val < payload.length / 4) :
    (payloadWords payload)[k.val]? = some (word (fill payload b) k) := by
  have hget : ∀ j, 4 * j + 3 < payload.length → (payloadWords payload)[j]? =
      some (payload[4 * j + 3]?.getD 0 ++ payload[4 * j + 2]?.getD 0 ++
        payload[4 * j + 1]?.getD 0 ++ payload[4 * j]?.getD 0) := by
    clear hk
    induction payload using payloadWords.induct with
    | case1 b₀ b₁ b₂ b₃ rest ih =>
      intro j hj
      cases j with
      | zero => rfl
      | succ j =>
        simp only [List.length_cons] at hj
        exact ih j (by omega)
    | case2 payload h =>
      rcases payload with _ | ⟨b₀, _ | ⟨b₁, _ | ⟨b₂, _ | ⟨b₃, rest⟩⟩⟩⟩
      all_goals intro j hj
      all_goals simp only [List.length_cons, List.length_nil] at hj
      all_goals first | omega | exact absurd rfl (h b₀ b₁ b₂ b₃ rest)
  rw [hget k.val (by omega), word]
  simp only [fill]
  rw [List.getElem?_eq_getElem (by omega), List.getElem?_eq_getElem (by omega),
    List.getElem?_eq_getElem (by omega), List.getElem?_eq_getElem (by omega)]
  rfl

/-- **The buffer after a completion** is what it brought, and what it did
not. -/
theorem ofFn_word_receive (b : Buffer words) (c : Completion) :
    List.ofFn (word (c.receive b)) = c.own words ++ c.leftover b := by
  have hown : (List.ofFn (word (c.receive b))).take (c.own words).length = c.own words := by
    cases c with
    | failure => rfl
    | success payload =>
      refine List.ext_getElem? fun k => ?_
      simp only [Completion.own, Completion.receive, List.length_take, length_payloadWords,
        List.getElem?_take, List.getElem?_ofFn]
      by_cases hw : k < words
      · by_cases hp : k < payload.length / 4
        · rw [if_pos (by omega), if_pos hw, dif_pos hw]
          exact (word_fill (k := ⟨k, hw⟩) hp).symm
        · rw [if_neg (by omega), if_pos hw, List.getElem?_eq_none]
          rw [length_payloadWords]
          omega
      · rw [if_neg (by omega), if_neg hw]
  rw [Completion.leftover]
  conv_lhs => rw [← List.take_append_drop (c.own words).length (List.ofFn _), hown]

end TestBuffer
