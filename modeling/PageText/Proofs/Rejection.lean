/-
PageText/Proofs/Rejection.lean

Tokens that are rejected.  A rejected token is a lone `>`, a sign or a point
without digits, a string in angle brackets up to its first bad byte, or a string
that the bytes end before (`Token.Rejected`).  The scan of such a token fails at
its end (`Token.scan_of_rejected`), and a scan that fails has read one
(`Token.scan_rejected`).

The round of a rejected token leaves the reader as it was and reads nothing after
the token (`Turn.Reads.of_rejected`).

Main result: `Reader.rejected_iff`.
-/
import PageText.Proofs.Extents

namespace PageText

/-! ### Rejected tokens -/

namespace Token

/-- The bytes are those of a rejected token, and `rest` follows them. -/
inductive Rejected : (bytes rest : List UInt8) → Prop where
  /-- A lone `>`. -/
  | loneAngle {rest : List UInt8} : rest.head? ≠ some Byte.greater → Rejected [Byte.greater] rest
  /-- A sign or a point, or both, without digits. -/
  | noDigits {n : Numeral} {rest : List UInt8} : n.Formed → n.hasDigits = false →
    n.EndsBefore rest → Rejected n.bytes rest
  /-- A string in angle brackets through its first bad byte. -/
  | badHexDigit {body rest : List UInt8} {bad : UInt8} :
    (∀ b ∈ body, Quotation.isHexBody b = true) → Quotation.isHexBody bad = false →
    bad ≠ Byte.greater → (body ++ [bad]).head? ≠ some Byte.less →
    Rejected (Byte.less :: (body ++ [bad])) rest
  /-- A string in angle brackets that does not end. -/
  | openHex {body : List UInt8} : (∀ b ∈ body, Quotation.isHexBody b = true) →
    Rejected (Byte.less :: body) []
  /-- A string in parentheses that does not end. -/
  | openLiteral {body : List UInt8} : Quotation.literalEnd? 1 0 body = none →
    Rejected (Byte.openParen :: body) []

namespace Scan

variable {rest : List UInt8} {failure : Failure}

theorem literal_rejected (h : (literal rest).found = .error failure) :
    ∃ body after, rest = body ++ after ∧ (literal rest).more = body.length
      ∧ Rejected (Byte.openParen :: body) after := by
  rcases hend : Quotation.literalEnd? 1 0 rest with - | taken
  · refine ⟨rest, [], (List.append_nil rest).symm, ?_, .openLiteral hend⟩
    rw [literal, hend]
  · rw [literal, hend] at h
    cases h

theorem hex_rejected (hless : rest.head? ≠ some Byte.less)
    (h : (hex rest).found = .error failure) :
    ∃ body after, rest = body ++ after ∧ (hex rest).more = body.length
      ∧ Rejected (Byte.less :: body) after := by
  rcases exists_run Quotation.isHexBody rest with hbody | ⟨body, bad, after, rfl, hbody, hbad⟩
  · refine ⟨rest, [], (List.append_nil rest).symm, ?_, .openHex hbody⟩
    rw [hex_open hbody]
  · by_cases hgreater : bad = Byte.greater
    · subst hgreater
      rw [hex_closed hbody] at h
      cases h
    · rw [hex_bad hbody hbad hgreater]
      refine ⟨body ++ [bad], after, ?_, ?_, .badHexDigit hbody hbad hgreater ?_⟩
      · rw [List.append_assoc, List.singleton_append]
      · rw [List.length_append, List.length_singleton]
      · intro hhead
        rw [← List.singleton_append, ← List.append_assoc, List.head?_append, hhead] at hless
        exact hless rfl

theorem number_rejected {b : UInt8} (hb : startsNumber b = true)
    (h : (number b rest).found = .error failure) :
    ∃ body after, rest = body ++ after ∧ (number b rest).more = body.length
      ∧ Rejected (b :: body) after := by
  obtain ⟨after, hbytes, hends⟩ := Numeral.exists_rest (b :: rest)
  have hmore := number_more b rest
  have hdigits : (Numeral.ofBytes (b :: rest)).hasDigits = false := by
    rw [number] at h
    split at h
    · cases h
    · next hdigits => rwa [Bool.not_eq_true] at hdigits
  have hnonempty := Numeral.bytes_ne_nil hb rest
  rcases hparts : (Numeral.ofBytes (b :: rest)).bytes with - | ⟨first, body⟩
  · exact absurd hparts hnonempty
  · have hrejected : Rejected (Numeral.ofBytes (b :: rest)).bytes after :=
      .noDigits (Numeral.formed_ofBytes hnonempty) hdigits hends
    rw [hparts] at hbytes hmore hrejected
    obtain ⟨rfl, hrest⟩ := List.cons.inj hbytes
    exact ⟨body, after, hrest, hmore, hrejected⟩

end Scan

/-- **A scan without a token** read a rejected one. -/
theorem scan_rejected {b : UInt8} {rest : List UInt8} {failure : Failure}
    (h : (scan b rest).found = .error failure) :
    ∃ body after, rest = body ++ after ∧ (scan b rest).more = body.length
      ∧ Rejected (b :: body) after := by
  cases reads b with
  | name hscan =>
    rw [hscan] at h
    cases h
  | literal hb hscan =>
    subst hb
    rw [hscan] at h ⊢
    exact Scan.literal_rejected h
  | less hb hscan =>
    subst hb
    rw [hscan] at h ⊢
    split at h
    · cases h
    · next hless =>
      rw [if_neg hless]
      exact Scan.hex_rejected (by rwa [beq_iff_eq] at hless) h
  | greater hb hscan =>
    subst hb
    rw [hscan] at h ⊢
    split at h
    · cases h
    · next hgreater =>
      rw [if_neg hgreater]
      exact ⟨[], rest, rfl, rfl, .loneAngle (by rwa [beq_iff_eq] at hgreater)⟩
  | alone token hscan =>
    rw [hscan] at h
    cases h
  | number hb hscan =>
    rw [hscan] at h ⊢
    exact Scan.number_rejected hb h
  | keyword hscan =>
    rw [hscan, Scan.keyword] at h
    split at h
    · cases h
    · cases h

/-- **A rejected token is never taken** for another one: the scan of its first byte
reads it and fails. -/
theorem scan_of_rejected {bytes rest : List UInt8} (h : Rejected bytes rest) :
    ∃ first body failure, bytes = first :: body
      ∧ scan first (body ++ rest) = ⟨.error failure, body.length⟩ := by
  cases h with
  | loneAngle hgreater =>
    refine ⟨Byte.greater, [], .fault 0 .loneAngle, rfl, ?_⟩
    show (if rest.head? == some Byte.greater then _ else _) = _
    rw [if_neg (by rwa [beq_iff_eq])]
    rfl
  | @noDigits n rest hformed hdigits hends =>
    obtain ⟨first, body, hbytes, hfirst⟩ := Numeral.exists_head hformed
    have hnumeral : Numeral.ofBytes (first :: (body ++ rest)) = n := by
      rw [← List.cons_append, ← hbytes]
      exact Numeral.ofBytes_append hformed hends
    refine ⟨first, body, .fault 0 .noDigits, hbytes, ?_⟩
    rw [scan_of_isRegular (Byte.isRegular_of_startsNumber hfirst), if_pos hfirst, Scan.number,
      hnumeral, if_neg (by rw [hdigits]; decide), hbytes]
    rfl
  | @badHexDigit body rest bad hbody hbad hgreater hless =>
    refine ⟨Byte.less, body ++ [bad], .fault (body.length + 1) (.badHexDigit bad), rfl, ?_⟩
    have hless' : (body ++ [bad] ++ rest).head? ≠ some Byte.less := by
      have hne : body ++ [bad] ≠ [] :=
        List.append_ne_nil_of_right_ne_nil body (List.cons_ne_nil bad [])
      rwa [List.head?_append_of_ne_nil _ hne]
    rw [scan_less hless', List.append_assoc, List.singleton_append,
      Scan.hex_bad hbody hbad hgreater, List.length_append, List.length_singleton]
  | @openHex body hbody =>
    refine ⟨Byte.less, body, .ended, rfl, ?_⟩
    have hless : (body ++ []).head? ≠ some Byte.less := by
      rw [List.append_nil]
      intro hhead
      cases hbody _ (List.mem_of_head? hhead)
    rw [scan_less hless, List.append_nil, Scan.hex_open hbody]
  | @openLiteral body hend =>
    refine ⟨Byte.openParen, body, .ended, rfl, ?_⟩
    rw [List.append_nil]
    show Scan.literal body = _
    rw [Scan.literal, hend]

end Token

/-! ### Rounds -/

theorem Turn.exists_failure {turn : Turn} (h : turn.rejected = true) :
    ∃ failure, turn.scan.found = .error failure := by
  rw [rejected] at h
  rcases hfound : turn.scan.found with failure | token
  · exact ⟨failure, rfl⟩
  · rw [hfound] at h
    cases h

/-- The bytes from the first one of the token to where the next round starts. -/
def Turn.taken (turn : Turn) (bytes : List UInt8) : List UInt8 :=
  (bytes.drop turn.start.offset).take (turn.next.offset - turn.start.offset)

namespace Turn.Reads

variable {r : Reader} {place : Place} {turn : Turn} {gap : List UInt8} {first : UInt8}
  {body data bytes : List UInt8}

/-- A rejected token leaves the reader as it was, and is reported. -/
theorem of_rejected (h : turn.Reads r place gap first body data)
    (hrejected : turn.rejected = true) :
    turn.reader = r ∧ (∃ notice, turn.outcome = .notice notice) ∧ data = [] := by
  obtain ⟨failure, hfailure⟩ := exists_failure hrejected
  have htaken := h.taken
  rw [hfailure, Reader.take] at htaken
  have houtcome : turn.outcome = .notice (.badToken (failure.error turn.start.offset)) :=
    congrArg Prod.snd htaken
  refine ⟨congrArg Prod.fst htaken, ⟨_, houtcome⟩, h.quiet ?_⟩
  rw [houtcome]
  exact fun h => by cases h

theorem event?_of_rejected (h : turn.Reads r place gap first body data)
    (hrejected : turn.rejected = true) : turn.event? = none := by
  obtain ⟨-, ⟨notice, houtcome⟩, -⟩ := h.of_rejected hrejected
  rw [Turn.event?_eq, houtcome]
  rfl

theorem taken_append (h : turn.Reads r place gap first body data) (hplace : place.Within bytes) :
    turn.taken bytes ++ bytes.drop turn.next.offset = turn.start.rest := by
  have hle : turn.start.offset ≤ turn.next.offset := by
    rw [h.offset, Nat.add_assoc]
    exact Nat.le_add_right _ _
  have hafter : bytes.drop turn.next.offset
      = (bytes.drop turn.start.offset).drop (turn.next.offset - turn.start.offset) := by
    rw [List.drop_drop, Nat.add_sub_cancel' hle]
  rw [Turn.taken, hafter, List.take_append_drop, (h.start_within hplace).drop]

/-- A rejected token stands where its round starts, and reading goes on after it. -/
theorem exists_rejected (h : turn.Reads r place gap first body data)
    (hrejected : turn.rejected = true) :
    ∃ token, turn.start.rest = token ++ turn.next.rest ∧ Token.Rejected token turn.next.rest := by
  obtain ⟨-, -, hdata⟩ := h.of_rejected hrejected
  obtain ⟨failure, hfailure⟩ := exists_failure hrejected
  have hscan := h.scan
  have hmore := h.more
  have hstart := h.start
  rw [hdata, List.nil_append] at hscan hstart
  rw [hscan] at hmore hfailure
  -- the scan took as many bytes as the round
  obtain ⟨body', after, hrest, hbody, htoken⟩ := Token.scan_rejected hfailure
  obtain ⟨rfl, rfl⟩ := List.append_inj hrest (hmore.symm.trans hbody)
  exact ⟨first :: body, by rw [hstart, List.cons_append], htoken⟩

end Turn.Reads

/-- **A round rejects what is a rejected token**, and nothing else. -/
theorem Reader.rejected_iff {r : Reader} {place : Place} {turn : Turn} {bytes : List UInt8}
    (h : r.turn? place = some turn) (hplace : place.Within bytes) :
    turn.rejected = true ↔ Token.Rejected (turn.taken bytes) (bytes.drop turn.next.offset) := by
  obtain ⟨gap, first, body, data, hreads⟩ := exists_reads h
  have hrest := hreads.taken_append hplace
  constructor
  · intro hrejected
    obtain ⟨token, htoken, hshape⟩ := hreads.exists_rejected hrejected
    rw [(hreads.next_within hplace).drop] at hrest ⊢
    rwa [List.append_cancel_right (hrest.trans htoken)]
  · intro hshape
    obtain ⟨first', body', failure, htaken, hscan⟩ := Token.scan_of_rejected hshape
    rw [htaken, hreads.start, List.cons_append] at hrest
    obtain ⟨rfl, hbody⟩ := List.cons.inj hrest
    rw [Turn.rejected, hreads.scan, ← hbody, hscan]

end PageText
