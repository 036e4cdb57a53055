/-
PageText/Proofs/AffineStates.lean

Text states stay finite, and their matrices affine.  Numbers reach a state from
operands alone, which are finite, and a matrix is built from six components or
moved by finite distances:

    [ 1  0  0 ]   [ a  b  0 ]     [ a  b  0 ]
    [ 0  1  0 ] * [ c  d  0 ]  =  [ c  d  0 ]
    [ x  y  1 ]   [ e  f  1 ]     [ e' f' 1 ]

So of a matrix that was set only the place of the origin changes later, until its
components are no longer finite.  Which matrix that is follows from the calls
alone (`matrixInForce`): a text object begins with the matrix of the state that
it copies, and when it ends the matrix of that state is in force again.

Main result: `affine_afterEach`.
-/
import PageText.Proofs.History
import PageText.Proofs.OperandShapes

namespace PageText

open Binary64 (SameValue)

/-! ### Matrices that are moved -/

namespace Transform

/-- All six components are finite. -/
def isFinite (t : Transform Float) : Bool := t.components.all Float.isFinite

/-- The matrices differ at most in where they put the origin. -/
def sameLinear (s t : Transform Float) : Bool :=
  s.a == t.a && s.b == t.b && s.c == t.c && s.d == t.d

/-- The last column is that of an affine map. -/
structure Affine (t : Transform Float) : Prop where
  u : t.u = 0
  v : t.v = 0
  w : t.w = 1

/-- The first four components have the same values. -/
structure Agrees (s t : Transform Float) : Prop where
  a : SameValue s.a t.a
  b : SameValue s.b t.b
  c : SameValue s.c t.c
  d : SameValue s.d t.d

variable {s t r : Transform Float} {dx dy : Float}

theorem isFinite_iff : t.isFinite = true ↔ t.a.isFinite = true ∧ t.b.isFinite = true
    ∧ t.c.isFinite = true ∧ t.d.isFinite = true ∧ t.e.isFinite = true ∧ t.f.isFinite = true := by
  simp [isFinite, components]

theorem Agrees.refl (t : Transform Float) : Agrees t t :=
  ⟨.refl _, .refl _, .refl _, .refl _⟩

theorem Agrees.symm (h : Agrees s t) : Agrees t s := ⟨h.a.symm, h.b.symm, h.c.symm, h.d.symm⟩

theorem Agrees.trans (hst : Agrees s t) (htr : Agrees t r) : Agrees s r :=
  ⟨hst.a.trans htr.a, hst.b.trans htr.b, hst.c.trans htr.c, hst.d.trans htr.d⟩

/-- Finite values that are the same compare as equal. -/
theorem Agrees.sameLinear (h : Agrees s t) (hs : s.isFinite = true) : s.sameLinear t = true := by
  obtain ⟨ha, hb, hc, hd, -, -⟩ := isFinite_iff.mp hs
  simp only [Transform.sameLinear, h.a.beq ha, h.b.beq hb, h.c.beq hc, h.d.beq hd, Bool.and_self]

theorem Agrees.sameLinear_symm (h : Agrees s t) (hs : s.isFinite = true) :
    t.sameLinear s = true := by
  obtain ⟨ha, hb, hc, hd, -, -⟩ := isFinite_iff.mp hs
  simp only [Transform.sameLinear, h.a.symm.beq (h.a.isFinite ha), h.b.symm.beq (h.b.isFinite hb),
    h.c.symm.beq (h.c.isFinite hc), h.d.symm.beq (h.d.isFinite hd), Bool.and_self]

/-- Whatever is not finite stays in the matrix when it is moved. -/
theorem isFinite_of_shift (h : ((shift dx dy).andThen t).isFinite = true) : t.isFinite = true := by
  obtain ⟨ha, hb, hc, hd, -, -⟩ := isFinite_iff.mp h
  obtain ⟨hc', he⟩ := Binary64.isFinite_of_dot_one_zero ha
  obtain ⟨hd', hf⟩ := Binary64.isFinite_of_dot_one_zero hb
  obtain ⟨ha', -⟩ := Binary64.isFinite_of_dot_zero_one hc
  obtain ⟨hb', -⟩ := Binary64.isFinite_of_dot_zero_one hd
  exact isFinite_iff.mpr ⟨ha', hb', hc', hd', he, hf⟩

/-- Moving a matrix of finite components changes the origin alone. -/
theorem agrees_shift (h : t.isFinite = true) : Agrees ((shift dx dy).andThen t) t := by
  obtain ⟨ha, hb, hc, hd, he, hf⟩ := isFinite_iff.mp h
  exact ⟨Binary64.dot_one_zero hc he, Binary64.dot_one_zero hd hf, Binary64.dot_zero_one ha he,
    Binary64.dot_zero_one hb hf⟩

theorem affine_shift (h : t.Affine) (hdx : dx.isFinite = true) (hdy : dy.isFinite = true) :
    ((shift dx dy).andThen t).Affine := by
  refine ⟨?_, ?_, ?_⟩
  · show dot 1 0 0 t.u t.v t.w = 0
    rw [h.u, h.v, h.w]
    rfl
  · show dot 0 1 0 t.u t.v t.w = 0
    rw [h.u, h.v, h.w]
    rfl
  · show dot dx dy 1 t.u t.v t.w = 1
    rw [h.u, h.v, h.w]
    exact Binary64.dot_of_shift hdx hdy

end Transform

/-! ### States -/

namespace TextState

/-- The parameters of the state are finite, and its matrix is affine. -/
structure Sound (s : TextState Float) : Prop where
  horizontalScale : s.horizontalScale.isFinite = true
  charSpacing : s.charSpacing.isFinite = true
  wordSpacing : s.wordSpacing.isFinite = true
  leading : s.leading.isFinite = true
  rise : s.rise.isFinite = true
  fontSize : s.fontSize.isFinite = true
  affine : s.matrix.Affine

theorem Sound.initial : Sound TextState.initial where
  horizontalScale := rfl
  charSpacing := rfl
  wordSpacing := rfl
  leading := rfl
  rise := rfl
  fontSize := rfl
  affine := ⟨rfl, rfl, rfl⟩

variable {s : TextState Float}

theorem Sound.move (h : s.Sound) {dx dy : Float} (hdx : dx.isFinite = true)
    (hdy : dy.isFinite = true) : (s.move dx dy).Sound :=
  { h with affine := Transform.affine_shift h.affine hdx hdy }

theorem Sound.nextLine (h : s.Sound) : s.nextLine.Sound := h.move rfl h.leading

end TextState

namespace Operator

variable {op : Operator} {s : TextState Float}

/-- An operator that can be written leaves a sound state sound. -/
theorem Writable.sound_change (hop : op.Writable) (h : s.Sound) : (op.change s).Sound := by
  have hfinite := hop.finite
  cases op with
  | setLeading x => exact { h with leading := hfinite x List.mem_cons_self }
  | setRise x => exact { h with rise := hfinite x List.mem_cons_self }
  | setCharSpacing x => exact { h with charSpacing := hfinite x List.mem_cons_self }
  | setWordSpacing x => exact { h with wordSpacing := hfinite x List.mem_cons_self }
  | setHorizontalScale x => exact { h with horizontalScale := hfinite x List.mem_cons_self }
  | moveLine dx dy =>
    exact h.move (hfinite dx List.mem_cons_self)
      (hfinite dy (List.mem_cons_of_mem _ List.mem_cons_self))
  | moveLineSetLeading dx dy =>
    have hdy := hfinite dy (List.mem_cons_of_mem _ List.mem_cons_self)
    exact { h.move (hfinite dx List.mem_cons_self) hdy with leading := hdy }
  | setFont font size => exact { h with fontSize := hfinite size List.mem_cons_self }
  | setMatrix matrix =>
    refine { h with affine := ?_ }
    show matrix.Affine
    rw [hop.affine matrix rfl]
    exact ⟨rfl, rfl, rfl⟩
  | nextLine => exact h.nextLine
  | nextLineShow text => exact h.nextLine
  | setSpacingNextLineShow wordSpacing charSpacing text =>
    refine TextState.Sound.nextLine { h with charSpacing := ?_, wordSpacing := ?_ }
    · exact hfinite charSpacing (List.mem_cons_of_mem _ List.mem_cons_self)
    · exact hfinite wordSpacing List.mem_cons_self
  | beginPage | endPage | beginText | endText | showText | showSpaced => exact h

/-- Whether the operator moves to another line. -/
def movesLine : Operator → Bool
  | moveLine .. | moveLineSetLeading .. | nextLine | nextLineShow _ | setSpacingNextLineShow .. =>
    true
  | _ => false

theorem matrix_change_of_movesLine (h : op.movesLine = true) (s : TextState Float) :
    ∃ dx dy, (op.change s).matrix = (Transform.shift dx dy).andThen s.matrix := by
  cases op with
  | moveLine dx dy | moveLineSetLeading dx dy => exact ⟨dx, dy, rfl⟩
  | nextLine | nextLineShow | setSpacingNextLineShow => exact ⟨_, s.leading, rfl⟩
  | _ => cases h

theorem stackAfter?_of_movesLine (h : op.movesLine = true) (s : TextState Float)
    (below : Stack Float) : op.stackAfter? (s :: below) = some (op.change s :: below) := by
  cases op <;> first | rfl | cases h

theorem matrix_change (hmoves : op.movesLine = false) (hsets : ∀ matrix, op ≠ .setMatrix matrix)
    (s : TextState Float) : (op.change s).matrix = s.matrix := by
  cases op with
  | setMatrix matrix => exact absurd rfl (hsets matrix)
  | moveLine | moveLineSetLeading | nextLine | nextLineShow | setSpacingNextLineShow => cases hmoves
  | _ => rfl

/-- An operator that sets no matrix at most moves the one that is there. -/
theorem agrees_change (hsets : ∀ matrix, op ≠ .setMatrix matrix)
    (h : (op.change s).matrix.isFinite = true) :
    s.matrix.isFinite = true ∧ (op.change s).matrix.Agrees s.matrix := by
  cases hmoves : op.movesLine with
  | true =>
    obtain ⟨dx, dy, hmatrix⟩ := matrix_change_of_movesLine hmoves s
    rw [hmatrix] at h ⊢
    have hs := Transform.isFinite_of_shift h
    exact ⟨hs, Transform.agrees_shift hs⟩
  | false =>
    rw [matrix_change hmoves hsets] at h ⊢
    exact ⟨h, .refl _⟩

end Operator

/-! ### The matrix in force -/

/-- The operator that was carried out in a call. -/
def Call.operator? (call : Call) : Option Operator :=
  match Operator.ofEvent? call.event, call.result with
  | .ok (some op), .ok _ => some op
  | _, _ => none

/-- The matrix that was set last for the state that has `above` states above it;
the latest of the calls is the first of the list.  Before a text object began,
what is now the state of the object and the state below it were one. -/
def matrixInForce : (above : Nat) → List Call → Transform Float
  | _, [] => .identity
  | above, call :: earlier =>
    match call.operator? with
    | some (.beginPage _) => .identity
    | some .beginText => matrixInForce (above - 1) earlier
    | some .endText => matrixInForce (above + 1) earlier
    | some (.setMatrix matrix) => if above = 0 then matrix else matrixInForce above earlier
    | _ => matrixInForce above earlier

theorem matrixInForce_cons (above : Nat) (call : Call) (earlier : List Call) :
    matrixInForce above (call :: earlier)
      = match call.operator? with
        | some (.beginPage _) => .identity
        | some .beginText => matrixInForce (above - 1) earlier
        | some .endText => matrixInForce (above + 1) earlier
        | some (.setMatrix matrix) => if above = 0 then matrix else matrixInForce above earlier
        | _ => matrixInForce above earlier := rfl

/-- The states are sound, and their matrices are those in force. -/
def Kept (earlier : List Call) (stack : Stack Float) : Prop :=
  ∀ above (s : TextState Float), stack[above]? = some s → s.Sound
    ∧ (s.matrix.isFinite = true → s.matrix.Agrees (matrixInForce above earlier))

namespace Kept

variable {earlier : List Call} {call : Call} {stack stack' below : Stack Float}
  {s t : TextState Float} {op : Operator}

theorem nil (earlier : List Call) : Kept earlier [] := by
  intro above s hs
  cases hs

/-- A call in which no operator is carried out changes nothing. -/
theorem pass (h : Kept earlier stack) (hcall : call.operator? = none) :
    Kept (call :: earlier) stack := by
  intro above s hs
  obtain ⟨hsound, hmatrix⟩ := h above s hs
  refine ⟨hsound, ?_⟩
  rw [matrixInForce_cons, hcall]
  exact hmatrix

theorem page (earlier : List Call) {number : Option UInt32}
    (hcall : call.operator? = some (.beginPage number)) : Kept (call :: earlier) Stack.page := by
  intro above s hs
  obtain rfl : s = TextState.initial := List.mem_singleton.mp (List.mem_of_getElem? hs)
  refine ⟨.initial, fun _ => ?_⟩
  rw [matrixInForce_cons, hcall]
  exact .refl _

/-- The top state is replaced by one whose matrix is at most moved. -/
theorem change (h : Kept earlier (s :: below)) (ht : t.Sound)
    (hmatrix : t.matrix.isFinite = true → s.matrix.isFinite = true ∧ t.matrix.Agrees s.matrix)
    (hcall : ∀ above, matrixInForce above (call :: earlier) = matrixInForce above earlier) :
    Kept (call :: earlier) (t :: below) := by
  intro above r hr
  rw [hcall]
  cases above with
  | zero =>
    obtain rfl : t = r := Option.some.inj hr
    refine ⟨ht, fun hfinite => ?_⟩
    obtain ⟨hs, hagrees⟩ := hmatrix hfinite
    exact hagrees.trans ((h 0 s rfl).2 hs)
  | succ n => exact h (n + 1) r hr

/-- **Operators keep states sound** and their matrices those in force. -/
theorem step (h : Kept earlier stack) (hop : op.Writable) (hcall : call.operator? = some op)
    (hstack : op.stackAfter? stack = some stack') : Kept (call :: earlier) stack' := by
  rcases stack with - | ⟨s, below⟩
  · cases op with
    | beginPage number =>
      obtain rfl := Option.some.inj hstack
      exact page earlier hcall
    | _ => cases hstack
  cases op with
  | beginPage number =>
    obtain rfl := Option.some.inj hstack
    exact page earlier hcall
  | endPage =>
    obtain rfl := Option.some.inj hstack
    exact nil _
  | beginText =>
    obtain rfl := Option.some.inj hstack
    intro above r hr
    rw [matrixInForce_cons, hcall]
    cases above with
    | zero => exact h 0 r hr
    | succ n => exact h n r hr
  | endText =>
    rw [Operator.stackAfter?] at hstack
    split at hstack
    · cases hstack
    · obtain rfl := Option.some.inj hstack
      intro above r hr
      rw [matrixInForce_cons, hcall]
      exact h (above + 1) r hr
  | setMatrix matrix =>
    obtain rfl := Option.some.inj hstack
    have hsound := hop.sound_change (h 0 s rfl).1
    intro above r hr
    rw [matrixInForce_cons, hcall]
    cases above with
    | zero =>
      obtain rfl := Option.some.inj hr
      exact ⟨hsound, fun _ => .refl _⟩
    | succ n => exact h (n + 1) r hr
  | _ =>
    obtain rfl := Option.some.inj hstack
    refine h.change (hop.sound_change (h 0 s rfl).1) ?_ ?_
    · exact Operator.agrees_change (by rintro _ ⟨⟩)
    · intro above
      rw [matrixInForce_cons, hcall]

end Kept

/-! ### Events in a row -/

/-- Whether the event moves to another line. -/
def Event.movesLine (event : Event) : Bool :=
  match Operator.ofEvent? event with
  | .ok (some op) => op.movesLine
  | _ => false

namespace Interpreter

variable {i : Interpreter} {earlier : List Call}

theorem kept_answer (setting : Setting) (h : Kept earlier i.stack) (event : Event) :
    Kept (⟨event, (answer setting event i).1⟩ :: earlier) (answer setting event i).2.stack := by
  rcases hop : Operator.ofEvent? event with rejection | - | op
  · rw [answer_of_rejected hop]
    exact h.pass (by simp only [Call.operator?, hop])
  · rw [answer_of_unknown hop]
    exact h.pass (by simp only [Call.operator?, hop])
  · rw [answer_of_operator hop]
    rcases hstack : op.stackAfter? i.stack with - | stack
    · exact h.pass (by simp only [Call.operator?, hop])
    · have hwritable := (ofEvent?_eq_some_iff.mp hop).operands.writable
      exact h.step hwritable (by simp only [Call.operator?, hop]) hstack

theorem kept_afterEach (setting : Setting) (events : List Event) :
    Kept (history setting events {}).reverse (afterEach setting events {}).stack := by
  -- by the last event, whose call is the first to be looked at
  induction events using List.reverseRecOn with
  | nil => exact .nil _
  | append_singleton events event ih =>
    rw [history_snoc, afterEach_snoc, List.reverse_append]
    exact kept_answer setting ih event

/-- An event that moves to another line changes the top state, and of its matrix
the place of the origin. -/
theorem sameLinear_of_movesLine (setting : Setting) {event : Event}
    (hmoves : event.movesLine = true) {s : TextState Float} {below : Stack Float}
    (hi : i.stack = s :: below) (hs : s.matrix.isFinite = true) :
    ∃ t, (answer setting event i).2.stack = t :: below ∧ t.matrix.sameLinear s.matrix = true := by
  rw [Event.movesLine] at hmoves
  rcases hop : Operator.ofEvent? event with rejection | - | op
  · rw [hop] at hmoves
    cases hmoves
  · rw [hop] at hmoves
    cases hmoves
  · rw [hop] at hmoves
    obtain ⟨dx, dy, hmatrix⟩ := Operator.matrix_change_of_movesLine hmoves s
    rw [answer_of_operator hop, hi, Operator.stackAfter?_of_movesLine hmoves]
    refine ⟨op.change s, rfl, ?_⟩
    rw [hmatrix]
    exact (Transform.agrees_shift hs).symm.sameLinear_symm hs

/-- **Text states stay sound**, whatever events a new interpreter is given.  As
long as the components of a matrix are finite, it differs from the one in force
at most in where it puts the origin, which is all that moving to another line
changes. -/
theorem affine_afterEach (setting : Setting) (events : List Event) :
    let calls := history setting events {}
    let i := afterEach setting events {}
    (∀ (above : Nat) (s : TextState Float), i.stack[above]? = some s → s.Sound
      ∧ (s.matrix.isFinite = true →
        s.matrix.sameLinear (matrixInForce above calls.reverse) = true))
      ∧ ∀ (event : Event) (s : TextState Float) (below : Stack Float), event.movesLine = true →
        i.stack = s :: below → s.matrix.isFinite = true →
        ∃ t, (process setting event i).2.stack = t :: below
          ∧ t.matrix.sameLinear s.matrix = true := by
  intro calls i
  constructor
  · intro above s hs
    obtain ⟨hsound, hagrees⟩ := kept_afterEach setting events above s hs
    exact ⟨hsound, fun hfinite => (hagrees hfinite).sameLinear hfinite⟩
  · intro event s below hmoves hi hs
    exact sameLinear_of_movesLine setting hmoves hi hs

/-- A text object within another one sets a matrix of its own and moves it; when
it ends, the matrix of the outer one is in force again, and moving to another line
keeps to it. -/
theorem affine_afterEach_within_text_objects :
    let events : List Event :=
      [⟨"begin_page", []⟩, ⟨"BT", []⟩,
        ⟨"Tm", [.number 2, .number 0, .number 0, .number 2, .number 5, .number 5]⟩, ⟨"BT", []⟩,
        ⟨"Tm", [.number 3, .number 0, .number 0, .number 3, .number 0, .number 0]⟩,
        ⟨"Td", [.number 1, .number 1]⟩, ⟨"ET", []⟩, ⟨"Td", [.number 1, .number 1]⟩]
    let nextLine : Event := ⟨"T*", []⟩
    let matrix : Transform Float := .ofComponents 2 0 0 2 5 5
    matrixInForce 0 (history {} events {}).reverse = matrix ∧ nextLine.movesLine = true
      ∧ ∃ s below, (afterEach {} events {}).stack = s :: below ∧ s.matrix.isFinite = true
        ∧ s.matrix.e = 7 ∧ s.Sound ∧ s.matrix.sameLinear matrix = true
        ∧ ∃ t, (process {} nextLine (afterEach {} events {})).2.stack = t :: below
          ∧ t.matrix.sameLinear s.matrix = true := by
  intro events nextLine matrix
  have hinForce : matrixInForce 0 (history {} events {}).reverse = matrix := by decide +kernel
  have hmoves : nextLine.movesLine = true := by decide +kernel
  have hfinite : (afterEach {} events {}).stack.head?.map (·.matrix.isFinite) = some true := by
    decide +kernel
  have hmoved : (afterEach {} events {}).stack.head?.map (·.matrix.e) = some 7 := by
    decide +kernel
  obtain ⟨hstates, hnext⟩ := affine_afterEach {} events
  rcases hi : (afterEach {} events {}).stack with - | ⟨s, below⟩
  · rw [hi] at hfinite
    cases hfinite
  · rw [hi] at hfinite hmoved
    have hs := Option.some.inj hfinite
    obtain ⟨hsound, hsame⟩ := hstates 0 s (congrArg (·[0]?) hi)
    have hlinear := hsame hs
    refine ⟨hinForce, hmoves, s, below, rfl, hs, Option.some.inj hmoved, hsound, ?_, ?_⟩
    · exact hinForce ▸ hlinear
    · exact hnext nextLine s below hmoves hi hs

end Interpreter

end PageText
