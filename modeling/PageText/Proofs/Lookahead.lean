/-
PageText/Proofs/Lookahead.lean

How far reading looks ahead of a gap and of the data of an image.  Both lie within
the bytes (`Gap.size_le_length`, `ImageData.size_le_length`).  A gap that has used
up all of the bytes goes on after them (`Gap.size_append_of_eq`); any other one
stays as it is.

Image data that ends is told by one byte after its end mark, so it stays the same
when the bytes after it are replaced as those after a token may be
(`ImageData.size_replace`).  Data that the bytes did not end may end later.
-/
import PageText.Proofs.Scanning

namespace PageText

/-! ### Gaps -/

namespace Gap

theorem sizeFrom_le_length (bytes : List UInt8) :
    ∀ inComment : Bool, sizeFrom inComment 0 bytes ≤ bytes.length := by
  induction bytes with
  | nil =>
    intro inComment
    cases inComment <;> exact Nat.le_refl 0
  | cons b rest ih =>
    intro inComment
    cases inComment with
    | true =>
      rw [sizeFrom, sizeFrom_eq_add, List.length_cons]
      have hrest := ih (!Byte.isLineEnd b)
      omega
    | false =>
      rw [sizeFrom, List.length_cons]
      split
      · rw [sizeFrom_eq_add]
        have hrest := ih true
        omega
      split
      · rw [sizeFrom_eq_add]
        have hrest := ih false
        omega
      · exact Nat.zero_le _

/-- A gap lies within the bytes. -/
theorem size_le_length (bytes : List UInt8) : size bytes ≤ bytes.length :=
  sizeFrom_le_length bytes false

/-- A line end after the bytes closes a comment that is open there, and a gap
that has come so far goes on after it. -/
theorem sizeFrom_append (bytes more : List UInt8) :
    ∀ inComment : Bool, sizeFrom inComment 0 (bytes ++ Byte.lineFeed :: more)
      = if sizeFrom inComment 0 bytes = bytes.length then bytes.length + 1 + size more
        else sizeFrom inComment 0 bytes := by
  induction bytes with
  | nil =>
    intro inComment
    cases inComment <;> exact sizeFrom_eq_add more false 1
  | cons b rest ih =>
    -- one byte more of the gap on either side
    have hcount (inComment : Bool) :
        0 + 1 + sizeFrom inComment 0 (rest ++ Byte.lineFeed :: more)
          = if 0 + 1 + sizeFrom inComment 0 rest = (b :: rest).length then
              (b :: rest).length + 1 + size more
            else 0 + 1 + sizeFrom inComment 0 rest := by
      rw [ih, List.length_cons]
      split
      · rw [if_pos (by omega)]
        omega
      · rw [if_neg (by omega)]
    intro inComment
    cases inComment with
    | true =>
      rw [List.cons_append, sizeFrom, sizeFrom, sizeFrom_eq_add, sizeFrom_eq_add rest]
      exact hcount _
    | false =>
      rw [List.cons_append, sizeFrom, sizeFrom]
      split
      · rw [sizeFrom_eq_add, sizeFrom_eq_add rest]
        exact hcount true
      split
      · rw [sizeFrom_eq_add, sizeFrom_eq_add rest]
        exact hcount false
      · exact (if_neg (Nat.zero_ne_add_one _)).symm

/-- A gap before other bytes stays as it is. -/
theorem size_append_of_ne {bytes : List UInt8} (h : size bytes ≠ bytes.length)
    (more : List UInt8) : size (bytes ++ Byte.lineFeed :: more) = size bytes :=
  (sizeFrom_append bytes more false).trans (if_neg h)

/-- A gap that takes up all the bytes goes on after them. -/
theorem size_append_of_eq {bytes : List UInt8} (h : size bytes = bytes.length)
    (more : List UInt8) :
    size (bytes ++ Byte.lineFeed :: more) = bytes.length + 1 + size more :=
  (sizeFrom_append bytes more false).trans (if_pos h)

end Gap

/-! ### Image data -/

namespace ImageData

theorem startsWithEnd_singleton (b : UInt8) : startsWithEnd [b] = false := by
  rw [startsWithEnd.eq_def]
  split
  · next heq => cases heq
  · next heq => cases heq
  · rfl

theorem startsWithEnd_cons_cons (b c : UInt8) (rest : List UInt8) :
    startsWithEnd (b :: c :: rest)
      = (b == 0x45 && c == 0x49 && rest.head?.all fun d => !Byte.isRegular d) := by
  rw [startsWithEnd.eq_def]
  split
  · next heq =>
    cases heq
    rfl
  · next heq =>
    cases heq
    rfl
  · next hone hmore =>
    rw [eq_comm, Bool.eq_false_iff]
    intro h
    simp only [Bool.and_eq_true, beq_iff_eq] at h
    obtain ⟨⟨rfl, rfl⟩, -⟩ := h
    cases rest with
    | nil => exact hone rfl
    | cons d others => exact hmore d others rfl

theorem two_le_length {bytes : List UInt8} (h : startsWithEnd bytes = true) :
    2 ≤ bytes.length := by
  rcases bytes with - | ⟨b, - | ⟨c, rest⟩⟩
  · cases h
  · rw [startsWithEnd_singleton] at h
    cases h
  · exact Nat.le_add_left 2 rest.length

/-- Image data that ends has an end mark, and lies within the bytes. -/
theorem of_sizeFrom? {afterBlank : Bool} {taken n : Nat} {bytes : List UInt8}
    (h : sizeFrom? afterBlank taken bytes = some n) :
    taken + 2 ≤ n ∧ n ≤ taken + bytes.length := by
  fun_induction sizeFrom? afterBlank taken bytes with
  | case1 => cases h
  | case2 afterBlank taken b rest hend =>
    obtain rfl := Option.some.inj h
    exact ⟨Nat.le_refl _, Nat.add_le_add_left (two_le_length (Bool.and_eq_true_iff.mp hend).2) _⟩
  | case3 afterBlank taken b rest hend ih =>
    obtain ⟨htwo, hle⟩ := ih h
    rw [List.length_cons]
    omega

variable {rest other : List UInt8} (hother : Byte.StartsLike other rest)

include hother in
/-- An end mark is one before any byte that is as good as the one after it. -/
theorem startsWithEnd_replace {b c : UInt8} (h : startsWithEnd (b :: c :: rest) = true) :
    startsWithEnd (b :: c :: other) = true := by
  rw [startsWithEnd_cons_cons, Bool.and_eq_true, Option.all_eq_true] at h ⊢
  obtain ⟨hmark, hrest⟩ := h
  refine ⟨hmark, hother.head? ?_ hrest⟩
  intro d hd
  rw [(Byte.of_isBlank hd).1]
  rfl

include hother in
theorem sizeFrom?_replace (data : List UInt8) :
    ∀ (afterBlank : Bool) (taken : Nat),
      sizeFrom? afterBlank taken (data ++ rest) = some (taken + data.length) →
      sizeFrom? afterBlank taken (data ++ other) = some (taken + data.length) := by
  induction data with
  | nil =>
    intro afterBlank taken h
    exact absurd (of_sizeFrom? h).1 (by rw [List.length_nil]; omega)
  | cons b data ih =>
    intro afterBlank taken h
    have hlength := (of_sizeFrom? h).1
    rw [List.cons_append, sizeFrom?] at h ⊢
    split at h
    · next hend =>
      -- the end mark stands at the end of the data
      obtain ⟨hblank, hmark⟩ := Bool.and_eq_true_iff.mp hend
      have htwo := Option.some.inj h
      obtain ⟨c, rfl⟩ : ∃ c, data = [c] := by
        rw [List.length_cons] at htwo
        exact List.length_eq_one_iff.mp (by omega)
      have hmark' : startsWithEnd (b :: c :: other) = true := startsWithEnd_replace hother hmark
      rw [List.singleton_append, hblank, hmark']
      exact h
    · next hend =>
      rw [List.length_cons] at h hlength ⊢
      have hsum : taken + (data.length + 1) = taken + 1 + data.length := by omega
      rw [hsum] at h ⊢
      -- the data goes on past an end mark, so the byte after it belongs to the data
      obtain ⟨c, d, others, rfl⟩ : ∃ c d others, data = c :: d :: others := by
        have hlater := (of_sizeFrom? h).1
        rcases data with - | ⟨c, - | ⟨d, others⟩⟩
        · exact absurd hlater (by rw [List.length_nil]; omega)
        · exact absurd hlater (by rw [List.length_singleton]; omega)
        · exact ⟨c, d, others, rfl⟩
      have hmark : startsWithEnd (b :: (c :: d :: others ++ other))
          = startsWithEnd (b :: (c :: d :: others ++ rest)) := by
        simp only [List.cons_append, startsWithEnd_cons_cons, List.head?_cons]
      rw [hmark, if_neg hend]
      exact ih _ _ h

theorem size?_le_length {bytes : List UInt8} {n : Nat} (h : size? bytes = some n) :
    n ≤ bytes.length := by
  cases bytes with
  | nil => cases h
  | cons b rest =>
    rw [size?] at h
    split at h
    · have hle := (of_sizeFrom? h).2
      rwa [Nat.add_comm] at hle
    · have hle := (of_sizeFrom? h).2
      rwa [Nat.zero_add] at hle

/-- Image data lies within the bytes. -/
theorem size_le_length (bytes : List UInt8) : size bytes ≤ bytes.length := by
  rcases hsize : size? bytes with - | n
  · rw [size, hsize]
    exact Nat.le_refl _
  · rw [size, hsize]
    exact size?_le_length hsize

include hother in
theorem size?_replace {data : List UInt8} (h : size? (data ++ rest) = some data.length) :
    size? (data ++ other) = some data.length := by
  cases data with
  | nil =>
    -- image data that ends has an end mark
    rw [List.nil_append] at h
    cases rest with
    | nil => cases h
    | cons b rest =>
      rw [size?] at h
      split at h
      · cases (of_sizeFrom? h).1
      · cases (of_sizeFrom? h).1
  | cons b data =>
    rw [List.cons_append, size?, List.length_cons] at h ⊢
    split at h
    · next hblank =>
      rw [Nat.add_comm] at h ⊢
      rw [if_pos hblank]
      exact sizeFrom?_replace hother data true 1 h
    · next hblank =>
      rw [← Nat.zero_add (data.length + 1)] at h ⊢
      rw [if_neg hblank]
      exact sizeFrom?_replace hother (b :: data) false 0 h

include hother in
/-- **Image data does not change with what follows it**, if nothing follows where
nothing did. -/
theorem size_replace (hend : rest = [] → other = []) {data : List UInt8}
    (h : size (data ++ rest) = data.length) : size (data ++ other) = data.length := by
  rcases hsize : size? (data ++ rest) with - | n
  · -- without an end mark the data takes up all the bytes
    have hlength : (data ++ rest).length = data.length := by rwa [size, hsize] at h
    rw [List.length_append, Nat.add_eq_left, List.length_eq_zero_iff] at hlength
    rwa [hend hlength, ← hlength]
  · have hn : n = data.length := by rwa [size, hsize] at h
    rw [hn] at hsize
    rw [size, size?_replace hother hsize, Option.getD_some]

/-- **Image data that ends does so within the bytes**, and is not changed by a
blank after them. -/
theorem size?_append {stop : UInt8} (hstop : Byte.isBlank stop = true) {bytes : List UInt8}
    {n : Nat} (h : size? bytes = some n) (more : List UInt8) :
    size? (bytes ++ stop :: more) = some n ∧ n ≤ bytes.length := by
  have hle : n ≤ bytes.length := size?_le_length h
  have hsplit := List.take_append_drop n bytes
  have hlength := List.length_take_of_le hle
  have hsize : size? (bytes.take n ++ bytes.drop n) = some (bytes.take n).length := by
    rw [hsplit, hlength, h]
  have hsame := size?_replace (.of_blank hstop (bytes.drop n) more) hsize
  rw [← List.append_assoc, hsplit, hlength] at hsame
  exact ⟨hsame, hle⟩

end ImageData

end PageText
