/-
PageText/Proofs/OperandShapes.lean

Which operands are accepted.  An operator is written with the operands that its
kind takes (`Operator.operands`): those that are accepted are these, and no
others, but for a page number of zero, which may be negative.

Checking is made of readings in a row, so acceptance is described part by part:
a reading succeeds exactly when the operand at its place is the one that is
written for what was read (`numberAt_eq_ok_iff` and the lemmas beside it).

Main result: `ofEvent?_iff`.
-/
import PageText.Proofs.Pages
import PageText.Proofs.Scopes
import PageText.Proofs.UnitFactors

namespace PageText

/-! ### Operators as they are written -/

/-- An item of an array of text as an operand. -/
def TextItem.operand : TextItem → Operand
  | adjustment value => .number value
  | text s => .text s

/-- The number, if it is one. -/
def Operand.number? : Operand → Option Float
  | number x => some x
  | _ => none

/-- The numbers that an operand is or holds as items, in order. -/
def Operand.numbers : Operand → List Float
  | number x => [x]
  | array items => items.filterMap Operand.number?
  | _ => []

namespace Operator

/-- The operands that an operator is written with. -/
def operands : Operator → List Operand
  | beginPage none | endPage | beginText | endText | nextLine => []
  | beginPage (some page) => [.number page.toFloat]
  | setLeading x | setRise x | setCharSpacing x | setWordSpacing x | setHorizontalScale x =>
    [.number x]
  | moveLine dx dy | moveLineSetLeading dx dy => [.number dx, .number dy]
  | setFont font size => [.name font, .number size]
  | setMatrix matrix => matrix.components.map .number
  | setSpacingNextLineShow wordSpacing charSpacing text =>
    [.number wordSpacing, .number charSpacing, .text text]
  | nextLineShow text | showText text => [.text text]
  | showSpaced items => [.array (items.map TextItem.operand)]

/-- An operator that can be written: all its numbers are finite, and a matrix
has no cells but its components. -/
structure Writable (op : Operator) : Prop where
  finite : ∀ x ∈ op.operands.flatMap Operand.numbers, x.isFinite = true
  affine : ∀ matrix, op = .setMatrix matrix →
    matrix = .ofComponents matrix.a matrix.b matrix.c matrix.d matrix.e matrix.f

/-- The operands are those that the operator is written with.  The number of
page zero may be a zero of either sign. -/
structure Takes (op : Operator) (operands : List Operand) : Prop where
  writable : op.Writable
  written : operands = op.operands ∨ op = .beginPage (some 0) ∧ operands = [.number (-0)]

end Operator

/-! ### Readings -/

theorem bind_eq_ok_iff {ε β γ : Type} {x : Except ε β} {f : β → Except ε γ} {c : γ} :
    (x >>= f) = .ok c ↔ ∃ b, x = .ok b ∧ f b = .ok c := by
  refine ⟨bind_eq_ok, ?_⟩
  rintro ⟨b, rfl, h⟩
  exact h

namespace Operands

variable {operands : List Operand} {n i : Nat}

theorem expectCount_eq_ok_iff {u : Unit} :
    expectCount operands n = .ok u ↔ operands.length = n := by
  refine ⟨expectCount_eq_ok, ?_⟩
  intro h
  exact if_pos h

theorem operandAt_eq_ok_iff {operand : Operand} :
    operandAt operands i = .ok operand ↔ operands[i]? = some operand := by
  refine ⟨operandAt_eq_ok, ?_⟩
  intro h
  rw [operandAt, h]

theorem numberAt_eq_ok_iff {x : Float} :
    numberAt operands i = .ok x ↔ operands[i]? = some (.number x) ∧ x.isFinite = true := by
  refine ⟨numberAt_eq_ok, ?_⟩
  rintro ⟨hi, hx⟩
  exact bind_eq_ok_iff.mpr ⟨_, operandAt_eq_ok_iff.mpr hi, if_pos hx⟩

theorem textAt_eq_ok_iff {text : String} :
    textAt operands i = .ok text ↔ operands[i]? = some (.text text) := by
  refine ⟨textAt_eq_ok, ?_⟩
  intro hi
  exact bind_eq_ok_iff.mpr ⟨_, operandAt_eq_ok_iff.mpr hi, rfl⟩

theorem nameAt_eq_ok_iff {text : String} :
    nameAt operands i = .ok text ↔ operands[i]? = some (.name text) := by
  constructor
  · intro h
    obtain ⟨operand, hi, h⟩ := bind_eq_ok h
    cases operand with
    | name other =>
      cases h
      exact operandAt_eq_ok hi
    | _ => cases h
  · intro hi
    exact bind_eq_ok_iff.mpr ⟨_, operandAt_eq_ok_iff.mpr hi, rfl⟩

theorem textItem_eq_ok_iff {operand : Operand} {item : TextItem} :
    textItem operand = .ok item
      ↔ operand = item.operand ∧ ∀ x ∈ item.operand.numbers, x.isFinite = true := by
  constructor
  · intro h
    cases operand with
    | number x =>
      simp only [textItem] at h
      split at h
      · next hx =>
        cases h
        exact ⟨rfl, List.forall_mem_singleton.mpr hx⟩
      · cases h
    | text s =>
      cases h
      exact ⟨rfl, List.forall_mem_nil _⟩
    | _ => cases h
  · rintro ⟨rfl, hfinite⟩
    cases item with
    | adjustment x => exact if_pos (hfinite x List.mem_cons_self)
    | text s => rfl

/-- The items of an array are read one by one. -/
theorem mapM_textItem_eq_ok_iff (array : List Operand) : ∀ items : List TextItem,
    array.mapM textItem = .ok items ↔ array = items.map TextItem.operand
      ∧ ∀ item ∈ items, ∀ x ∈ item.operand.numbers, x.isFinite = true := by
  induction array with
  | nil =>
    intro items
    cases items with
    | nil => exact ⟨fun _ => ⟨rfl, List.forall_mem_nil _⟩, fun _ => rfl⟩
    | cons item rest => simp [pure, Except.pure]
  | cons operand rest ih =>
    intro items
    simp only [List.mapM_cons, bind_eq_ok_iff, textItem_eq_ok_iff, ih]
    constructor
    · rintro ⟨item, ⟨rfl, hitem⟩, others, ⟨rfl, hothers⟩, h⟩
      cases h
      exact ⟨rfl, List.forall_mem_cons.mpr ⟨hitem, hothers⟩⟩
    · rintro ⟨hmap, hfinite⟩
      cases items with
      | nil => cases hmap
      | cons item others =>
        obtain ⟨hitem, hothers⟩ := List.forall_mem_cons.mp hfinite
        obtain ⟨rfl, rfl⟩ := List.cons.inj hmap
        exact ⟨item, ⟨rfl, hitem⟩, others, ⟨rfl, hothers⟩, rfl⟩

theorem textItemsAt_eq_ok_iff {items : List TextItem} :
    textItemsAt operands i = .ok items
      ↔ operands[i]? = some (.array (items.map TextItem.operand))
        ∧ ∀ item ∈ items, ∀ x ∈ item.operand.numbers, x.isFinite = true := by
  constructor
  · intro h
    obtain ⟨array, hi, hitems⟩ := textItemsAt_eq_ok h
    obtain ⟨rfl, hfinite⟩ := (mapM_textItem_eq_ok_iff _ _).mp hitems
    exact ⟨hi, hfinite⟩
  · rintro ⟨hi, hfinite⟩
    exact bind_eq_ok_iff.mpr ⟨_, operandAt_eq_ok_iff.mpr hi,
      (mapM_textItem_eq_ok_iff _ _).mpr ⟨rfl, hfinite⟩⟩

/-! ### Page numbers -/

open Binary64 in
/-- **A page number** is a word that was converted, or minus zero. -/
theorem isPageNumber_iff {x : Float} :
    isPageNumber x = true ↔ ∃ page : UInt32, x = page.toFloat ∨ page = 0 ∧ x = -0 := by
  constructor
  · intro h
    rw [isPageNumber, Bool.and_eq_true] at h
    rcases (beq_iff.mp h.2).2 with hx | ⟨⟨s, hpage⟩, ⟨t, hx⟩⟩
    · exact ⟨x.toUInt32, .inl hx.symm⟩
    · cases t with
      | positive => exact ⟨0, .inl (eq_of_unpack_eq hx)⟩
      | negative => exact ⟨0, .inr ⟨rfl, eq_of_unpack_eq hx⟩⟩
  · rintro ⟨page, rfl | ⟨rfl, rfl⟩⟩
    · exact isPageNumber_toFloat page
    · rfl

theorem pageNumberAt_eq_ok_iff {page : UInt32} :
    pageNumberAt operands i = .ok page
      ↔ operands[i]? = some (.number page.toFloat)
        ∨ page = 0 ∧ operands[i]? = some (.number (-0)) := by
  simp only [pageNumberAt, bind_eq_ok_iff, numberAt_eq_ok_iff]
  constructor
  · rintro ⟨x, ⟨hi, -⟩, h⟩
    split at h
    · next hx =>
      have hpage : x.toUInt32 = page := Except.ok.inj h
      obtain ⟨page', rfl | ⟨rfl, rfl⟩⟩ := isPageNumber_iff.mp hx
      · rw [Binary64.toUInt32_toFloat] at hpage
        exact .inl (hpage ▸ hi)
      · exact .inr ⟨hpage.symm, hi⟩
    · cases h
  · rintro (hi | ⟨rfl, hi⟩)
    · refine ⟨_, ⟨hi, Binary64.toFloat_isFinite page⟩, ?_⟩
      rw [if_pos (isPageNumber_toFloat page), Binary64.toUInt32_toFloat]
    · exact ⟨_, ⟨hi, rfl⟩, rfl⟩

end Operands

/-! ### Shapes of operand lists -/

namespace Operands

variable {operands : List Operand} {op : Operator}

theorem nothing_eq_ok_iff {made : Operator} :
    nothing operands made = .ok op ↔ operands = [] ∧ op = made := by
  simp only [nothing, bind_eq_ok_iff, expectCount_eq_ok_iff, List.length_eq_zero_iff]
  constructor
  · rintro ⟨-, rfl, h⟩
    cases h
    exact ⟨rfl, rfl⟩
  · rintro ⟨rfl, rfl⟩
    exact ⟨(), rfl, rfl⟩

theorem oneNumber_eq_ok_iff {make : Float → Operator} : oneNumber operands make = .ok op
    ↔ ∃ x, x.isFinite = true ∧ operands = [.number x] ∧ op = make x := by
  simp only [oneNumber, bind_eq_ok_iff, expectCount_eq_ok_iff, numberAt_eq_ok_iff]
  constructor
  · rintro ⟨-, hcount, x, ⟨hi, hx⟩, h⟩
    cases h
    exact ⟨x, hx, eq_singleton hcount hi, rfl⟩
  · rintro ⟨x, hx, rfl, rfl⟩
    exact ⟨(), rfl, x, ⟨rfl, hx⟩, rfl⟩

/-- Two operands, given by their places. -/
theorem eq_pair {first second : Operand} (hcount : operands.length = 2)
    (h₀ : operands[0]? = some first) (h₁ : operands[1]? = some second) :
    operands = [first, second] := by
  obtain ⟨a, b, rfl⟩ := List.length_eq_two.mp hcount
  obtain rfl : a = first := Option.some.inj h₀
  obtain rfl : b = second := Option.some.inj h₁
  rfl

theorem twoNumbers_eq_ok_iff {make : Float → Float → Operator} :
    twoNumbers operands make = .ok op ↔ ∃ x y, x.isFinite = true ∧ y.isFinite = true
      ∧ operands = [.number x, .number y] ∧ op = make x y := by
  simp only [twoNumbers, bind_eq_ok_iff, expectCount_eq_ok_iff, numberAt_eq_ok_iff]
  constructor
  · rintro ⟨-, hcount, x, ⟨hi, hx⟩, y, ⟨hj, hy⟩, h⟩
    cases h
    exact ⟨x, y, hx, hy, eq_pair hcount hi hj, rfl⟩
  · rintro ⟨x, y, hx, hy, rfl, rfl⟩
    exact ⟨(), rfl, x, ⟨rfl, hx⟩, y, ⟨rfl, hy⟩, rfl⟩

theorem oneText_eq_ok_iff {make : String → Operator} :
    oneText operands make = .ok op ↔ ∃ text, operands = [.text text] ∧ op = make text := by
  refine ⟨oneText_eq_ok, ?_⟩
  rintro ⟨text, rfl, rfl⟩
  rfl

end Operands

namespace Operator

variable {kind : Kind} {operands : List Operand} {op : Operator}

/-- The numbers of an array of text are those of its items. -/
theorem numbers_showSpaced {items : List TextItem} :
    (∀ x ∈ (showSpaced items).operands.flatMap Operand.numbers, x.isFinite = true)
      ↔ ∀ item ∈ items, ∀ x ∈ item.operand.numbers, x.isFinite = true := by
  simp only [operands, List.flatMap_singleton, Operand.numbers, List.mem_filterMap, List.mem_map]
  constructor
  · intro h item hitem x hx
    refine h x ⟨item.operand, ⟨item, hitem, rfl⟩, ?_⟩
    cases item with
    | adjustment value => exact congrArg some (List.mem_singleton.mp hx).symm
    | text s => cases hx
  · rintro h x ⟨_, ⟨item, hitem, rfl⟩, hx⟩
    refine h item hitem x ?_
    cases item with
    | adjustment value => exact List.mem_singleton.mpr (Option.some.inj hx).symm
    | text s => cases hx

/-- What is accepted is what the operator is written with. -/
theorem takes_of_ofOperands (h : ofOperands kind operands = .ok op) : op.Takes operands := by
  cases kind with
  | beginPage =>
    simp only [ofOperands] at h
    split at h
    · cases h
    next hcount =>
    split at h
    · next hnone =>
      cases h
      exact ⟨⟨by simp [Operator.operands], by rintro _ ⟨⟩⟩, .inl (List.isEmpty_iff.mp hnone)⟩
    · obtain ⟨page, hpage, h⟩ := bind_eq_ok h
      cases h
      have hfinite := Binary64.toFloat_isFinite page
      refine ⟨⟨by simp [Operator.operands, Operand.numbers, hfinite], by rintro _ ⟨⟩⟩, ?_⟩
      -- there is an operand, and there are no more
      have hsingle : ∀ operand, operands[0]? = some operand → operands = [operand] := by
        intro operand hi
        refine Operands.eq_singleton ?_ hi
        have hlt : 0 < operands.length := (List.getElem?_eq_some_iff.mp hi).1
        omega
      rcases Operands.pageNumberAt_eq_ok_iff.mp hpage with hi | ⟨rfl, hi⟩
      · exact .inl (hsingle _ hi)
      · exact .inr ⟨rfl, hsingle _ hi⟩
  | endPage | beginText | endText | nextLine =>
    obtain ⟨rfl, rfl⟩ := Operands.nothing_eq_ok_iff.mp h
    exact ⟨⟨by simp [Operator.operands], by rintro _ ⟨⟩⟩, .inl rfl⟩
  | setLeading | setRise | setCharSpacing | setWordSpacing | setHorizontalScale =>
    obtain ⟨x, hx, rfl, rfl⟩ := Operands.oneNumber_eq_ok_iff.mp h
    exact ⟨⟨by simp [Operator.operands, Operand.numbers, hx], by rintro _ ⟨⟩⟩, .inl rfl⟩
  | moveLine | moveLineSetLeading =>
    obtain ⟨x, y, hx, hy, rfl, rfl⟩ := Operands.twoNumbers_eq_ok_iff.mp h
    exact ⟨⟨by simp [Operator.operands, Operand.numbers, hx, hy], by rintro _ ⟨⟩⟩, .inl rfl⟩
  | setFont =>
    simp only [ofOperands, bind_eq_ok_iff, Operands.expectCount_eq_ok_iff,
      Operands.nameAt_eq_ok_iff, Operands.numberAt_eq_ok_iff] at h
    obtain ⟨-, hcount, font, hi, size, ⟨hj, hsize⟩, h⟩ := h
    cases h
    exact ⟨⟨by simp [Operator.operands, Operand.numbers, hsize], by rintro _ ⟨⟩⟩,
      .inl (Operands.eq_pair hcount hi hj)⟩
  | setMatrix =>
    simp only [ofOperands, bind_eq_ok_iff, Operands.expectCount_eq_ok_iff,
      Operands.numberAt_eq_ok_iff] at h
    obtain ⟨-, hcount, a, ⟨ha, hafin⟩, b, ⟨hb, hbfin⟩, c, ⟨hc, hcfin⟩, d, ⟨hd, hdfin⟩, e,
      ⟨he, hefin⟩, f, ⟨hf, hffin⟩, h⟩ := h
    cases h
    refine ⟨⟨?_, ?_⟩, .inl (List.ext_getElem? fun n => ?_)⟩
    · simp [Operator.operands, Operand.numbers, Transform.components, Transform.ofComponents, *]
    · rintro _ ⟨⟩
      rfl
    · rcases n with - | - | - | - | - | - | n
      · exact ha
      · exact hb
      · exact hc
      · exact hd
      · exact he
      · exact hf
      · exact List.getElem?_eq_none (by omega)
  | setSpacingNextLineShow =>
    simp only [ofOperands, bind_eq_ok_iff, Operands.expectCount_eq_ok_iff,
      Operands.textAt_eq_ok_iff, Operands.numberAt_eq_ok_iff] at h
    obtain ⟨-, hcount, wordSpacing, ⟨hi, hw⟩, charSpacing, ⟨hj, hc⟩, text, hk, h⟩ := h
    cases h
    exact ⟨⟨by simp [Operator.operands, Operand.numbers, hw, hc], by rintro _ ⟨⟩⟩,
      .inl (Operands.eq_triple hcount hi hj hk)⟩
  | nextLineShow | showText =>
    obtain ⟨text, rfl, rfl⟩ := Operands.oneText_eq_ok_iff.mp h
    exact ⟨⟨by simp [Operator.operands, Operand.numbers], by rintro _ ⟨⟩⟩, .inl rfl⟩
  | showSpaced =>
    simp only [ofOperands, bind_eq_ok_iff, Operands.expectCount_eq_ok_iff,
      Operands.textItemsAt_eq_ok_iff] at h
    obtain ⟨-, hcount, items, ⟨hi, hfinite⟩, h⟩ := h
    cases h
    exact ⟨⟨numbers_showSpaced.mpr hfinite, by rintro _ ⟨⟩⟩,
      .inl (Operands.eq_singleton hcount hi)⟩

/-- What the operator is written with is accepted. -/
theorem ofOperands_of_writable (h : op.Writable) : ofOperands op.kind op.operands = .ok op := by
  have hfinite := h.finite
  cases op with
  | beginPage page =>
    rcases page with - | page
    · rfl
    · show (Operands.pageNumberAt [.number page.toFloat] 0 >>= fun n => pure (beginPage (some n)))
        = _
      exact bind_eq_ok_iff.mpr ⟨page, Operands.pageNumberAt_eq_ok_iff.mpr (.inl rfl), rfl⟩
  | endPage | beginText | endText | nextLine => rfl
  | setLeading x | setRise x | setCharSpacing x | setWordSpacing x | setHorizontalScale x =>
    exact Operands.oneNumber_eq_ok_iff.mpr ⟨x, hfinite x List.mem_cons_self, rfl, rfl⟩
  | moveLine x y | moveLineSetLeading x y =>
    exact Operands.twoNumbers_eq_ok_iff.mpr ⟨x, y, hfinite x List.mem_cons_self,
      hfinite y (List.mem_cons_of_mem _ List.mem_cons_self), rfl, rfl⟩
  | setFont font size =>
    simp only [kind, ofOperands, bind_eq_ok_iff, Operands.expectCount_eq_ok_iff,
      Operands.nameAt_eq_ok_iff, Operands.numberAt_eq_ok_iff]
    exact ⟨(), rfl, font, rfl, size, ⟨rfl, hfinite size List.mem_cons_self⟩, rfl⟩
  | setMatrix matrix =>
    have hcells : ∀ x ∈ matrix.components, x.isFinite = true := by
      intro x hx
      exact hfinite x
        (List.mem_flatMap.mpr ⟨.number x, List.mem_map_of_mem hx, List.mem_cons_self⟩)
    simp only [Transform.components, List.forall_mem_cons] at hcells
    obtain ⟨ha, hb, hc, hd, he, hf, -⟩ := hcells
    simp only [kind, ofOperands, bind_eq_ok_iff, Operands.expectCount_eq_ok_iff,
      Operands.numberAt_eq_ok_iff]
    refine ⟨(), rfl, matrix.a, ⟨rfl, ha⟩, matrix.b, ⟨rfl, hb⟩, matrix.c, ⟨rfl, hc⟩, matrix.d,
      ⟨rfl, hd⟩, matrix.e, ⟨rfl, he⟩, matrix.f, ⟨rfl, hf⟩, ?_⟩
    rw [← h.affine matrix rfl]
    rfl
  | setSpacingNextLineShow wordSpacing charSpacing text =>
    simp only [kind, ofOperands, bind_eq_ok_iff, Operands.expectCount_eq_ok_iff,
      Operands.textAt_eq_ok_iff, Operands.numberAt_eq_ok_iff]
    exact ⟨(), rfl, wordSpacing, ⟨rfl, hfinite _ List.mem_cons_self⟩, charSpacing,
      ⟨rfl, hfinite _ (List.mem_cons_of_mem _ List.mem_cons_self)⟩, text, rfl, rfl⟩
  | nextLineShow text | showText text => rfl
  | showSpaced items =>
    simp only [kind, ofOperands, bind_eq_ok_iff, Operands.expectCount_eq_ok_iff,
      Operands.textItemsAt_eq_ok_iff]
    exact ⟨(), rfl, items, ⟨rfl, numbers_showSpaced.mp hfinite⟩, rfl⟩

theorem ofOperands_of_takes (h : op.Takes operands) : ofOperands op.kind operands = .ok op := by
  rcases h.written with rfl | ⟨rfl, rfl⟩
  · exact ofOperands_of_writable h.writable
  · show (Operands.pageNumberAt [.number (-0)] 0 >>= fun n => pure (beginPage (some n))) = _
    exact bind_eq_ok_iff.mpr ⟨0, Operands.pageNumberAt_eq_ok_iff.mpr (.inr ⟨rfl, rfl⟩), rfl⟩

/-- A page can always be written. -/
theorem writable_beginPage (page : UInt32) : (beginPage (some page)).Writable := by
  have hfinite := Binary64.toFloat_isFinite page
  exact ⟨by simp [operands, Operand.numbers, hfinite], by rintro _ ⟨⟩⟩

/-! ### What an operator takes -/

/-- The operands have the sorts of those that the operator is written with, none
missing and none too many. -/
theorem Takes.sorts (h : op.Takes operands) :
    operands.map Operand.sort = op.operands.map Operand.sort := by
  rcases h.written with rfl | ⟨rfl, rfl⟩
  · rfl
  · rfl

theorem Takes.finite (h : op.Takes operands) :
    ∀ x ∈ operands.flatMap Operand.numbers, x.isFinite = true := by
  rcases h.written with rfl | ⟨rfl, rfl⟩
  · exact h.writable.finite
  · exact List.forall_mem_singleton.mpr rfl

/-- No array stands within an array. -/
theorem Takes.items (h : op.Takes operands) {items : List Operand}
    (harray : .array items ∈ operands) :
    ∀ item ∈ items, item.sort = .number ∨ item.sort = .text := by
  rcases h.written with rfl | ⟨rfl, rfl⟩
  · cases op with
    | showSpaced written =>
      obtain rfl : items = written.map TextItem.operand := by
        simpa [Operator.operands] using harray
      rintro _ hitem
      obtain ⟨item, -, rfl⟩ := List.mem_map.mp hitem
      cases item with
      | adjustment value => exact .inl rfl
      | text s => exact .inr rfl
    | beginPage page => cases page <;> simp [Operator.operands] at harray
    | _ => simp [Operator.operands] at harray
  · simp at harray

/-- The number of a page is a whole number of 32 bits. -/
theorem Takes.page (h : op.Takes operands) (hkind : op.kind = .beginPage) {x : Float}
    (hx : .number x ∈ operands) : ∃ page : UInt32, (x == page.toFloat) = true := by
  rcases h.written with rfl | ⟨rfl, rfl⟩
  · cases op with
    | beginPage page =>
      rcases page with - | page
      · cases hx
      · obtain rfl : x = page.toFloat := Operand.number.inj (List.mem_singleton.mp hx)
        exact ⟨page, Binary64.toFloat_beq_self page⟩
    | _ => cases hkind
  · obtain rfl : x = -0 := Operand.number.inj (List.mem_singleton.mp hx)
    exact ⟨0, rfl⟩

end Operator

/-! ### Events -/

/-- The event is a way to write the operator: it spells its kind, in either way,
and has the operands that it takes. -/
structure Event.Writes (event : Event) (op : Operator) : Prop where
  kind : op.kind.isSpelled event.kind = true
  operands : op.Takes event.operands

variable {event : Event} {op : Operator}

theorem Kind.ofName?_eq_none_iff {name : String} :
    ofName? name = none ↔ ∀ kind : Kind, kind.isSpelled name = false := by
  rw [Option.eq_none_iff_forall_ne_some]
  refine forall_congr' fun kind => ?_
  rw [Ne, ofName?_eq_some_iff, Bool.not_eq_true]

theorem ofEvent?_eq_some_iff : Operator.ofEvent? event = .ok (some op) ↔ event.Writes op := by
  constructor
  · intro h
    obtain ⟨hname, hmade⟩ := ofOperands_of_ofEvent? h
    exact ⟨Kind.ofName?_eq_some_iff.mp hname, Operator.takes_of_ofOperands hmade⟩
  · rintro ⟨hkind, htakes⟩
    simp only [Operator.ofEvent?, Kind.ofName?_eq_some_iff.mpr hkind,
      Operator.ofOperands_of_takes htakes]

theorem ofEvent?_eq_none_iff :
    Operator.ofEvent? event = .ok none ↔ ∀ kind : Kind, kind.isSpelled event.kind = false := by
  rw [← Kind.ofName?_eq_none_iff]
  constructor
  · intro h
    cases hname : Kind.ofName? event.kind with
    | none => rfl
    | some kind =>
      simp only [Operator.ofEvent?, hname] at h
      split at h <;> cases h
  · intro hname
    simp only [Operator.ofEvent?, hname]

/-- An error names the spelling of the event. -/
theorem ofEvent?_eq_error {error : Error} (h : Operator.ofEvent? event = .error error) :
    ∃ mismatch, error = .malformed event.kind mismatch := by
  simp only [Operator.ofEvent?] at h
  split at h
  · cases h
  · split at h
    · cases h
    · next mismatch hmismatch =>
      cases h
      exact ⟨mismatch, rfl⟩

/-- **What is accepted.**  An event of no kind is none of the operators; an event
that is a way to write an operator is that operator, and there is no other one;
every other event is an error that names its spelling.  So an operator that can
be written is read again under each of its names, and an event that is accepted
has neither too few nor too many operands, all of the sorts that its kind takes,
its numbers finite, no array within an array, and a whole number of 32 bits for
a page. -/
theorem ofEvent?_iff (event : Event) :
    (Operator.ofEvent? event = .ok none ↔ ∀ kind : Kind, kind.isSpelled event.kind = false)
      ∧ (∀ op, Operator.ofEvent? event = .ok (some op) ↔ event.Writes op)
      ∧ (∀ op other, event.Writes op → event.Writes other → op = other)
      ∧ ((∃ kind : Kind, kind.isSpelled event.kind = true) → (∀ op, ¬ event.Writes op) →
        ∃ mismatch, Operator.ofEvent? event = .error (.malformed event.kind mismatch))
      ∧ (∀ op : Operator, op.Writable → ∀ name, op.kind.isSpelled name = true →
        Operator.ofEvent? ⟨name, op.operands⟩ = .ok (some op))
      ∧ (∀ page : UInt32, ∀ name, Kind.beginPage.isSpelled name = true →
        Operator.ofEvent? ⟨name, [.number page.toFloat]⟩ = .ok (some (.beginPage (some page))))
      ∧ ∀ op, Operator.ofEvent? event = .ok (some op) →
        event.operands.map Operand.sort = op.operands.map Operand.sort
          ∧ (∀ x ∈ event.operands.flatMap Operand.numbers, x.isFinite = true)
          ∧ (∀ items, .array items ∈ event.operands →
            ∀ item ∈ items, item.sort = .number ∨ item.sort = .text)
          ∧ (op.kind = .beginPage → ∀ x, .number x ∈ event.operands →
            ∃ page : UInt32, (x == page.toFloat) = true) := by
  have hread : ∀ op : Operator, op.Writable → ∀ name, op.kind.isSpelled name = true →
      Operator.ofEvent? ⟨name, op.operands⟩ = .ok (some op) :=
    fun op hop name hname => ofEvent?_eq_some_iff.mpr ⟨hname, hop, .inl rfl⟩
  refine ⟨ofEvent?_eq_none_iff, fun op => ofEvent?_eq_some_iff, ?_, ?_, hread, ?_, ?_⟩
  · intro op other hop hother
    have hsame := (ofEvent?_eq_some_iff.mpr hop).symm.trans (ofEvent?_eq_some_iff.mpr hother)
    exact Option.some.inj (Except.ok.inj hsame)
  · rintro ⟨kind, hkind⟩ hnone
    rcases hevent : Operator.ofEvent? event with error | - | op
    · obtain ⟨mismatch, rfl⟩ := ofEvent?_eq_error hevent
      exact ⟨mismatch, rfl⟩
    · have hunspelled := ofEvent?_eq_none_iff.mp hevent kind
      exact absurd hkind (Bool.eq_false_iff.mp hunspelled)
    · exact absurd (ofEvent?_eq_some_iff.mp hevent) (hnone op)
  · intro page name hname
    exact hread _ (Operator.writable_beginPage page) name hname
  · intro op hevent
    have htakes := (ofEvent?_eq_some_iff.mp hevent).operands
    exact ⟨htakes.sorts, htakes.finite, fun items => htakes.items, fun hkind x => htakes.page hkind⟩

/-- Page zero may be written with a minus sign; an array within an array is
refused. -/
theorem ofEvent?_iff_of_page_and_array :
    let page : Event := ⟨"begin_page", [.number (-0)]⟩
    let array : Event := ⟨"TJ", [.array [.text "a", .array []]]⟩
    page.Writes (.beginPage (some 0)) ∧ Operator.ofEvent? page = .ok (some (.beginPage (some 0)))
      ∧ Kind.showSpaced.isSpelled array.kind = true ∧ (∀ op, ¬ array.Writes op)
      ∧ ∃ mismatch, Operator.ofEvent? array = .error (.malformed "TJ" mismatch) := by
  intro page array
  have hpage : page.Writes (.beginPage (some 0)) :=
    ⟨by decide, Operator.writable_beginPage 0, .inr ⟨rfl, rfl⟩⟩
  have hspelled : Kind.showSpaced.isSpelled array.kind = true := by decide
  have hnone : ∀ op, ¬ array.Writes op := by
    intro op hop
    rcases hop.operands.items List.mem_cons_self _ (List.mem_cons_of_mem _ List.mem_cons_self) with
      hsort | hsort
    · cases hsort
    · cases hsort
  exact ⟨hpage, ((ofEvent?_iff page).2.1 _).mpr hpage, hspelled, hnone,
    (ofEvent?_iff array).2.2.2.1 ⟨_, hspelled⟩ hnone⟩

end PageText
