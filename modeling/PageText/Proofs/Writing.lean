/-
PageText/Proofs/Writing.lean

Events written as a content stream.  An operand is written as one lexeme, an
array as its items between brackets; an event is its operands and its kind.
Separators of any sort stand between lexemes.

Taken one after the other, the tokens of an operand push that operand, however
deeply it is nested (`delivered_operand`), and those of an event deliver that
event (`delivered_event`).  The main result is `events_print`: what is read of
events as written is those events.
-/
import PageText.Proofs.Spelling

namespace PageText

/-! ### Operands and events as written -/

/-- An operand together with the choices that are made in writing it. -/
inductive Written where
  | number (numeral : Numeral) (proper : numeral.Proper)
  | bool (value : Bool)
  /-- A name, the digits of its escapes in either case. -/
  | name (upper : Bool) (string : String)
  | text (chars : List Latin1.Narrow)
  | array (items : List Written)

/-- An event whose kind and operands can be written. -/
structure WrittenEvent where
  kind : Word
  operands : List Written

namespace Written

mutual

/-- The operand that is written. -/
def operand : Written → Operand
  | number numeral _ => .number numeral.value
  | bool value => .bool value
  | name _ string => .name string
  | text chars => .text (String.ofList (chars.map Subtype.val))
  | array items => .array (operandAll items)

/-- The operands that are written. -/
def operandAll : List Written → List Operand
  | [] => []
  | item :: rest => item.operand :: operandAll rest

end

mutual

/-- The lexemes of an operand. -/
def lexemes : Written → List Lexeme
  | number numeral proper => [.number numeral proper]
  | bool value => [.bool value]
  | name upper string => [.name upper string]
  | text chars => [.string (Latin1.encode chars)]
  | array items => .openArray :: (lexemesAll items ++ [.closeArray])

/-- The lexemes of operands. -/
def lexemesAll : List Written → List Lexeme
  | [] => []
  | item :: rest => item.lexemes ++ lexemesAll rest

end

end Written

namespace WrittenEvent

/-- The event that is written. -/
def event (written : WrittenEvent) : Event :=
  ⟨written.kind.text, Written.operandAll written.operands⟩

/-- The lexemes of an event: those of its operands, then its kind. -/
def lexemes (written : WrittenEvent) : List Lexeme :=
  Written.lexemesAll written.operands ++ [.keyword written.kind]

end WrittenEvent

/-- Events as written, the `n`th separator after the `n`th lexeme. -/
def print (separators : Nat → Separator) (events : List WrittenEvent) : List UInt8 :=
  spaced separators (events.flatMap WrittenEvent.lexemes)

/-! ### Taking their tokens -/

namespace Reader

/-- Operands go to the innermost open array. -/
theorem foldl_push_of_arrays (outer : List (List Operand)) (operands : List Operand) :
    ∀ (r : Reader) (items : List Operand), operands.foldl push { r with arrays := items :: outer }
      = { r with arrays := (operands.reverse ++ items) :: outer } := by
  induction operands with
  | nil =>
    intro r items
    rfl
  | cons operand rest ih =>
    intro r items
    refine (ih r (operand :: items)).trans ?_
    rw [List.reverse_cons, List.append_assoc, List.singleton_append]

/-- Without an open array they wait for a keyword. -/
theorem foldl_push (operands : List Operand) :
    ∀ r : Reader, r.arrays = [] → operands.foldl push r
      = { r with operands := operands.reverse ++ r.operands } := by
  induction operands with
  | nil =>
    intro r _
    rfl
  | cons operand rest ih =>
    intro r harrays
    have hpush : r.push operand = { r with operands := operand :: r.operands } := by
      rw [push, harrays]
    rw [List.foldl_cons, hpush, ih { r with operands := operand :: r.operands } harrays,
      List.reverse_cons, List.append_assoc, List.singleton_append]

end Reader

mutual

/-- The tokens of an operand push it. -/
theorem Reader.delivered_operand (written : Written) (r : Reader) (hdict : r.dictDepth = 0)
    (tokens : List Token) :
    r.delivered (written.lexemes.map Lexeme.token ++ tokens)
      = (r.push written.operand).delivered tokens := by
  have htake : ∀ token, r.take 0 (.ok token) = r.takeOutside 0 token := by
    intro token
    rw [take, if_neg (by rw [hdict]; decide)]
  cases written with
  | number numeral proper | bool value | name upper string =>
    rw [Written.lexemes, List.map_singleton, List.singleton_append, delivered, htake]
    rfl
  | text chars =>
    rw [Written.lexemes, List.map_singleton, List.singleton_append, delivered, htake,
      Written.operand, ← Latin1.decode_encode]
    rfl
  | array items =>
    -- the items go to the array that the bracket opens
    have hitems := delivered_operandAll items { r with arrays := [] :: r.arrays } hdict
      (Token.closeArray :: tokens)
    rw [foldl_push_of_arrays, List.append_nil] at hitems
    rw [Written.lexemes, List.map_cons, List.map_append, List.map_singleton, List.cons_append,
      List.append_assoc, List.singleton_append, delivered, htake]
    refine hitems.trans ?_
    have hclose : Reader.take { r with arrays := (Written.operandAll items).reverse :: r.arrays } 0
        (.ok .closeArray) = (r.push (.array (Written.operandAll items)), .nothing) := by
      rw [take, if_neg (by rw [hdict]; decide), takeOutside]
      simp only [List.reverse_reverse]
    rw [delivered, hclose, Written.operand]
    rfl

/-- The tokens of operands push them in order. -/
theorem Reader.delivered_operandAll (written : List Written) (r : Reader) (hdict : r.dictDepth = 0)
    (tokens : List Token) :
    r.delivered ((Written.lexemesAll written).map Lexeme.token ++ tokens)
      = ((Written.operandAll written).foldl push r).delivered tokens := by
  cases written with
  | nil => rfl
  | cons item rest =>
    rw [Written.lexemesAll, List.map_append, List.append_assoc,
      delivered_operand item r hdict,
      delivered_operandAll rest _ ((push_dictDepth _ _).trans hdict)]
    rfl

end

/-- The tokens of an event deliver it, and leave a reader with nothing gathered
as it was. -/
theorem Reader.delivered_event (written : WrittenEvent) (tokens : List Token) :
    Reader.delivered {} (written.lexemes.map Lexeme.token ++ tokens)
      = written.event :: Reader.delivered {} tokens := by
  have hkeyword : Reader.take { operands := (Written.operandAll written.operands).reverse } 0
      (.ok (.keyword written.kind.bytes)) = ({}, .event written.event) := by
    have himage : written.kind.bytes ≠ beginImage := written.kind.bytes_ne written.kind.notImage
    show takeKeyword _ _ = _
    rw [takeKeyword_of_no_image rfl himage]
    simp only [List.isEmpty_nil, if_true, Word.bytes, Utf8.decode_encode, List.reverse_reverse,
      WrittenEvent.event]
  have hoperands := delivered_operandAll written.operands {} rfl
    (.keyword written.kind.bytes :: tokens)
  rw [foldl_push _ {} rfl, List.append_nil] at hoperands
  rw [WrittenEvent.lexemes, List.map_append, List.append_assoc, List.map_singleton,
    List.singleton_append]
  refine hoperands.trans ?_
  rw [delivered, hkeyword]
  rfl

theorem Reader.delivered_events (events : List WrittenEvent) :
    Reader.delivered {} ((events.flatMap WrittenEvent.lexemes).map Lexeme.token)
      = events.map WrittenEvent.event := by
  induction events with
  | nil => rfl
  | cons event rest ih =>
    rw [List.flatMap_cons, List.map_append, delivered_event, ih, List.map_cons]

/-! ### No image begins -/

mutual

theorem Written.token_ne_beginImage (written : Written) :
    ∀ lexeme ∈ written.lexemes, lexeme.token ≠ .keyword Reader.beginImage := by
  intro lexeme hmem
  cases written with
  | array items =>
    rw [lexemes] at hmem
    rcases List.mem_cons.mp hmem with rfl | hmem
    · exact Token.noConfusion
    rcases List.mem_append.mp hmem with hmem | hmem
    · exact token_ne_beginImage_of_mem items lexeme hmem
    · obtain rfl := List.mem_singleton.mp hmem
      exact Token.noConfusion
  | _ =>
    rw [lexemes] at hmem
    obtain rfl := List.mem_singleton.mp hmem
    exact Token.noConfusion

theorem Written.token_ne_beginImage_of_mem (written : List Written) :
    ∀ lexeme ∈ lexemesAll written, lexeme.token ≠ .keyword Reader.beginImage := by
  intro lexeme hmem
  cases written with
  | nil => cases hmem
  | cons item rest =>
    rw [lexemesAll] at hmem
    rcases List.mem_append.mp hmem with hmem | hmem
    · exact token_ne_beginImage item lexeme hmem
    · exact token_ne_beginImage_of_mem rest lexeme hmem

end

theorem WrittenEvent.token_ne_beginImage (written : WrittenEvent) :
    ∀ lexeme ∈ written.lexemes, lexeme.token ≠ .keyword Reader.beginImage := by
  intro lexeme hmem
  rcases List.mem_append.mp hmem with hmem | hmem
  · exact Written.token_ne_beginImage_of_mem written.operands lexeme hmem
  · obtain rfl := List.mem_singleton.mp hmem
    have himage : written.kind.bytes ≠ Reader.beginImage :=
      written.kind.bytes_ne written.kind.notImage
    exact fun h => himage (Token.keyword.inj h)

/-! ### Reading them back -/

/-- **What is written is read back.**  The events of a content stream that was
written from events are those events, whatever separators it was written with. -/
theorem events_print (separators : Nat → Separator) (events : List WrittenEvent) :
    Content.events (print separators events) = events.map WrittenEvent.event := by
  have hquiet : ∀ lexeme ∈ events.flatMap WrittenEvent.lexemes,
      lexeme.token ≠ .keyword Reader.beginImage := by
    intro lexeme hmem
    obtain ⟨written, -, hmem⟩ := List.mem_flatMap.mp hmem
    exact written.token_ne_beginImage lexeme hmem
  have hread := Reader.events_spaced (events.flatMap WrittenEvent.lexemes)
    {} rfl hquiet separators Gap.Closed.nil 0
  exact hread.trans (Reader.delivered_events events)

/-- An event as written, with an empty comment after its second lexeme. -/
example :
    let blank : Separator := ⟨[0x20], .blank rfl .nil, by decide⟩
    let comment : Separator :=
      ⟨[0x25, 0x0A], @Gap.Closed.comment [] [] 0x0A nofun rfl .nil, by decide⟩
    let kind : Word := ⟨"Tf", by decide, by decide +kernel, by decide +kernel, by decide, by decide⟩
    let one : Numeral := ⟨none, [0x31], none⟩
    let items : List Written :=
      [.text [⟨'(', by decide⟩], .number one ⟨nofun, List.all_eq_true.mp rfl, nofun, rfl⟩]
    print (fun n => if n = 1 then comment else blank)
        [⟨kind, [.name false "a b", .array items]⟩]
      = Utf8.encode "/a#20b [%\n(\\() 1 ] Tf " := by
  decide +kernel

end PageText
