/-
PageText/Proofs/Dictionaries.lean

Dictionaries are read over.  Within one the reader counts how many are open and takes
notice of nothing else, so as long as no more are closed than are open it passes over
whatever is found (`Reader.passes_inside`), and where as many are closed as opened it is
the reader that it was.  That holds of any reader, with operands and arrays gathered,
within an image or in a dictionary already.

Main result: `Content.events_with_dictionary`.
-/
import PageText.Proofs.Lexing

namespace PageText

/-! ### Balance -/

namespace Token

/-- What is found opens a dictionary. -/
def opensDict : Except Failure Token → Bool
  | .ok .openDict => true
  | _ => false

/-- What is found closes a dictionary. -/
def closesDict : Except Failure Token → Bool
  | .ok .closeDict => true
  | _ => false

/-- How many dictionaries are opened. -/
def dictsOpened (found : List (Except Failure Token)) : Nat := found.countP opensDict

/-- How many dictionaries are closed. -/
def dictsClosed (found : List (Except Failure Token)) : Nat := found.countP closesDict

/-- No dictionary is closed before it is opened, and every one that is opened is closed. -/
structure DictsBalanced (found : List (Except Failure Token)) : Prop where
  nested : ∀ first, first <+: found → dictsClosed first ≤ dictsOpened first
  settled : dictsClosed found = dictsOpened found

instance (found : List (Except Failure Token)) : Decidable (DictsBalanced found) :=
  decidable_of_iff ((∀ first ∈ found.inits, dictsClosed first ≤ dictsOpened first)
      ∧ dictsClosed found = dictsOpened found) <| by
    simp only [List.mem_inits]
    exact ⟨fun h => ⟨h.1, h.2⟩, fun h => ⟨h.nested, h.settled⟩⟩

theorem dictsOpened_cons (first : Except Failure Token) (rest : List (Except Failure Token)) :
    dictsOpened (first :: rest) = dictsOpened [first] + dictsOpened rest := by
  show ([first] ++ rest).countP opensDict = _
  exact List.countP_append

theorem dictsClosed_cons (first : Except Failure Token) (rest : List (Except Failure Token)) :
    dictsClosed (first :: rest) = dictsClosed [first] + dictsClosed rest := by
  show ([first] ++ rest).countP closesDict = _
  exact List.countP_append

end Token

/-! ### Readers within dictionaries -/

namespace Reader

theorem take_outside {r : Reader} (h : r.dictDepth = 0) (offset : Nat) (token : Token) :
    r.take offset (.ok token) = r.takeOutside offset token := by
  rw [take, if_neg (Nat.not_lt.mpr (Nat.le_of_eq h))]

/-- A dictionary is opened outside of dictionaries as within them. -/
theorem take_openDict (r : Reader) (offset : Nat) :
    r.take offset (.ok .openDict) = ({ r with dictDepth := r.dictDepth + 1 }, .nothing) := by
  rw [take]
  split
  · rfl
  · next hdict =>
    have hzero : r.dictDepth = 0 := Nat.eq_zero_of_not_pos hdict
    rw [takeOutside, hzero]

theorem take_closeDict {r : Reader} (h : 0 < r.dictDepth) (offset : Nat) :
    r.take offset (.ok .closeDict) = ({ r with dictDepth := r.dictDepth - 1 }, .nothing) := by
  rw [take, if_pos h]
  rfl

/-- Within a dictionary only the dictionaries are counted. -/
theorem take_inside {r : Reader} (h : 0 < r.dictDepth) (found : Except Token.Failure Token) :
    ∃ outcome, r.take 0 found
        = ({ r with
            dictDepth := r.dictDepth + Token.dictsOpened [found] - Token.dictsClosed [found] },
          outcome)
      ∧ outcome.silenced = .nothing := by
  rcases found with failure | token
  · exact ⟨_, rfl, rfl⟩
  · rw [take, if_pos h]
    cases token <;> exact ⟨_, rfl, rfl⟩

/-- **Within a dictionary a reader passes over everything**, until it is closed. -/
theorem passes_inside (found : List (Except Token.Failure Token)) : ∀ r : Reader,
    (∀ first, first <+: found → Token.dictsClosed first < Token.dictsOpened first + r.dictDepth) →
      r.Passes found { r with
        dictDepth := r.dictDepth + Token.dictsOpened found - Token.dictsClosed found } := by
  induction found with
  | nil => exact fun r _ => .nil
  | cons first rest ih =>
    intro r hopen
    have hdict : 0 < r.dictDepth := by
      have hnone := hopen [] List.nil_prefix
      rwa [show Token.dictsOpened [] = 0 from rfl, Nat.zero_add] at hnone
    have hone := hopen [first] (List.prefix_append [first] rest)
    have hdepth : r.dictDepth + Token.dictsOpened (first :: rest)
          - Token.dictsClosed (first :: rest)
        = r.dictDepth + Token.dictsOpened [first] - Token.dictsClosed [first]
          + Token.dictsOpened rest - Token.dictsClosed rest := by
      rw [Token.dictsOpened_cons, Token.dictsClosed_cons]
      omega
    obtain ⟨outcome, htake, hsilent⟩ := take_inside hdict first
    rw [hdepth]
    refine .cons htake hsilent (ih _ ?_)
    intro later hlater
    have hboth := hopen (first :: later) (List.cons_prefix_cons.mpr ⟨rfl, hlater⟩)
    rw [Token.dictsOpened_cons, Token.dictsClosed_cons] at hboth
    show Token.dictsClosed later < Token.dictsOpened later
      + (r.dictDepth + Token.dictsOpened [first] - Token.dictsClosed [first])
    omega

/-- What is found in balanced dictionaries leaves a reader within one as it was. -/
theorem passes_balanced {r : Reader} (h : 0 < r.dictDepth)
    {found : List (Except Token.Failure Token)} (hbalanced : Token.DictsBalanced found) :
    r.Passes found r := by
  have hpasses := passes_inside found r ?_
  · rwa [hbalanced.settled, Nat.add_sub_cancel] at hpasses
  · intro first hfirst
    have hle := hbalanced.nested first hfirst
    omega

/-- A balanced dictionary is passed over. -/
theorem Passes.dict {r r' : Reader} {inner rest : List (Except Token.Failure Token)}
    (hrest : r.Passes rest r') (hbalanced : Token.DictsBalanced inner) :
    r.Passes (.ok .openDict :: (inner ++ .ok .closeDict :: rest)) r' := by
  have hinner : Passes { r with dictDepth := r.dictDepth + 1 } inner
    { r with dictDepth := r.dictDepth + 1 } := passes_balanced (Nat.succ_pos _) hbalanced
  have hclose : Passes { r with dictDepth := r.dictDepth + 1 } (.ok .closeDict :: rest) r' :=
    .cons (take_closeDict (Nat.succ_pos _) 0) rfl hrest
  exact .cons (r.take_openDict 0) rfl (hinner.append hclose)

/-! ### Dictionaries in a stream -/

/-- The first token of the bytes is taken silently. -/
theorem events_of_silent {r next : Reader} {outcome : Outcome} {first : UInt8} {more : List UInt8}
    (hblank : Byte.isBlank first = false) (hpercent : first ≠ Byte.percent)
    (htake : r.take 0 (Token.scan first more).found = (next, outcome))
    (hsilent : outcome.silenced = .nothing) :
    r.events (first :: more) = next.events (more.drop (Token.scan first more).more) := by
  obtain ⟨turn, hturn, -, rfl, hquiet, hnext⟩ :=
    exists_silent_turn .nil hblank hpercent htake hsilent 0
  rw [List.nil_append] at hturn
  rw [events, eventsFrom_of_turn hturn, event?_of_silenced hquiet, hnext]
  exact eventsFrom_offset turn.reader ⟨0, _⟩ _

end Reader

theorem Turn.ranOut_of_silent {turn : Turn} (hended : turn.scan.found ≠ .error .ended)
    (hsilent : turn.outcome.silenced = .nothing) : turn.ranOut = false := by
  rw [ranOut]
  split
  · next hfound => exact absurd hfound hended
  · next houtcome _ => exact absurd houtcome (Reader.ne_imageData_of_silenced hsilent)
  · rfl

namespace Reader

/-- Bytes that a reader passes over to their end deliver nothing, and it reads on after
them as the reader that it is then. -/
theorem events_of_passes {r r' : Reader} {bytes : List UInt8}
    (hended : .error .ended ∉ Token.found bytes) (hpasses : r.Passes (Token.found bytes) r')
    (more : List UInt8) : r.events (bytes ++ Byte.lineFeed :: more) = r'.events more := by
  obtain ⟨turns, stop, hrounds, -, hfound, hafter, hsilent⟩ := rounds_scans bytes.length 0 hpasses
  have hgap := Token.trailing_scans bytes.length bytes (Nat.le_refl _)
  rw [rounds_of_none (turn?_of_trailing r' hgap stop), List.append_nil] at hrounds
  have hran : ∀ turn ∈ r.rounds ⟨0, bytes⟩, turn.ranOut = false := by
    intro turn hturn
    rw [hrounds] at hturn
    refine Turn.ranOut_of_silent ?_ (hsilent turn hturn)
    intro heq
    have hmem := List.mem_map_of_mem (f := (·.scan.found)) hturn
    rw [hfound, heq] at hmem
    exact hended hmem
  have hnone : r.eventsFrom ⟨0, bytes⟩ = [] := by
    rw [eventsFrom, hrounds]
    exact List.filterMap_eq_nil_iff.mpr fun turn hturn => event?_of_silenced (hsilent turn hturn)
  have hleft : r.leftFrom ⟨0, bytes⟩ = r' := by
    rw [leftFrom, hrounds]
    exact hafter
  have happend := r.eventsFrom_followedBy ⟨0, bytes⟩ more hran
  rwa [hnone, hleft, List.nil_append] at happend

/-- **A dictionary changes nothing** for what stands after it. -/
theorem events_dictionary (r : Reader) {inner : List UInt8}
    (hended : .error .ended ∉ Token.found inner)
    (hbalanced : Token.DictsBalanced (Token.found inner)) (more : List UInt8) :
    r.events (Byte.less :: Byte.less
        :: (inner ++ Byte.lineFeed :: Byte.greater :: Byte.greater :: more))
      = r.events more := by
  have hpasses : Passes { r with dictDepth := r.dictDepth + 1 } (Token.found inner)
      { r with dictDepth := r.dictDepth + 1 } := passes_balanced (Nat.succ_pos _) hbalanced
  calc r.events (Byte.less :: Byte.less
        :: (inner ++ Byte.lineFeed :: Byte.greater :: Byte.greater :: more))
    _ = events { r with dictDepth := r.dictDepth + 1 }
        (inner ++ Byte.lineFeed :: Byte.greater :: Byte.greater :: more) :=
      events_of_silent rfl (by decide) (r.take_openDict 0) rfl
    _ = events { r with dictDepth := r.dictDepth + 1 } (Byte.greater :: Byte.greater :: more) :=
      events_of_passes hended hpasses _
    _ = r.events more := events_of_silent rfl (by decide) (take_closeDict (Nat.succ_pos _) 0) rfl

end Reader

/-- **Dictionaries are read over.**  If no round of the bytes before a dictionary ran out
of bytes, no scan of the bytes in it does and the dictionaries among these are balanced,
then the events are those of the bytes without it, whatever stands in it and wherever the
reader has come to before it. -/
theorem Content.events_with_dictionary (before inner after : List UInt8)
    (hbefore : ∀ turn ∈ Reader.turns {} before, turn.ranOut = false)
    (hinner : .error .ended ∉ Token.found inner)
    (hbalanced : Token.DictsBalanced (Token.found inner)) :
    events (before ++ Byte.lineFeed :: Byte.less :: Byte.less
        :: (inner ++ Byte.lineFeed :: Byte.greater :: Byte.greater :: after))
      = events (before ++ Byte.lineFeed :: after) := by
  have hsplit (more : List UInt8) : events (before ++ Byte.lineFeed :: more)
      = events before ++ (Reader.left {} before).events more :=
    Reader.eventsFrom_followedBy {} ⟨0, before⟩ more hbefore
  rw [hsplit, hsplit, Reader.events_dictionary _ hinner hbalanced]

/-- The bytes before, `[(a)BI<<`, leave an array, an image and a dictionary open.  In the
dictionary `/W BI ] <<q>> > ID [` are keywords of an image, brackets without partners, a
dictionary and a bad token. -/
theorem Content.events_with_dictionary_of_image_keywords :
    let before : List UInt8 := [0x5B, 0x28, 0x61, 0x29, 0x42, 0x49, 0x3C, 0x3C]
    let inner : List UInt8 := [0x2F, 0x57, 0x20, 0x42, 0x49, 0x20, 0x5D, 0x20, 0x3C, 0x3C, 0x71,
      0x3E, 0x3E, 0x20, 0x3E, 0x20, 0x49, 0x44, 0x20, 0x5B]
    let after : List UInt8 := [0x3E, 0x3E, 0x49, 0x44, 0x20, 0x45, 0x49, 0x28, 0x62, 0x29, 0x5D,
      0x54, 0x4A]
    (∀ turn ∈ Reader.turns {} before, turn.ranOut = false)
      ∧ .error .ended ∉ Token.found inner ∧ Token.DictsBalanced (Token.found inner)
      ∧ events (before ++ Byte.lineFeed :: Byte.less :: Byte.less
          :: (inner ++ Byte.lineFeed :: Byte.greater :: Byte.greater :: after))
        = [⟨"TJ", [.array [.text "a", .text "b"]]⟩] := by
  intro before inner after
  have hbefore : ∀ turn ∈ Reader.turns {} before, turn.ranOut = false := by
    have hall : (Reader.turns {} before).all (fun turn => !turn.ranOut) = true := by cbv
    intro turn hturn
    rw [← Bool.not_eq_true']
    exact List.all_eq_true.mp hall turn hturn
  have hfound : Token.found inner = [.ok (.name "W"), .ok (.keyword [0x42, 0x49]), .ok .closeArray,
      .ok .openDict, .ok (.keyword [0x71]), .ok .closeDict, .error (.fault 0 .loneAngle),
      .ok (.keyword [0x49, 0x44]), .ok .openArray] := by cbv
  have hinner : .error .ended ∉ Token.found inner := by
    rw [hfound]
    simp
  have hbalanced : Token.DictsBalanced (Token.found inner) := by
    rw [hfound]
    decide
  refine ⟨hbefore, hinner, hbalanced, ?_⟩
  rw [events_with_dictionary before inner after hbefore hinner hbalanced]
  cbv

end PageText
