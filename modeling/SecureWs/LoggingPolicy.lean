import SecureWs.Lib.RegexSearch
import SecureWs.Lib.JsonDumps
import SecureWs.Failures
import SecureWs.Lifecycle

/-!
# SecureWs.LoggingPolicy

The `RedactingFilter` of `logging_policy.py`, and what it does to the records of
this package.

* `Objects` is what `logging` asks of the objects in a record, so that the filter
  is a function of any record (`RedactingFilter.filter_cases`);
* `Quiet` is a text with nothing to redact; a separator cuts it in two
  (`quiet_append_cons`);
* `OwnRecord` lists the records of the package, with `%d` and `%s` evaluated
  (`percentFormat`); `own_records_pass` follows them over all runs.
-/

namespace SecureWs

open Python RegularExpression

/-! ## Records -/

/-- `record.args`: a tuple, or a mapping in its place. -/
inductive RecordArgs (Obj : Type) where
  | tuple (items : List Obj)
  | single (obj : Obj)

/-- The objects that a record can hold, as `logging` sees them: `str(obj)`,
`bool(obj)`, whether it is bytes-like, and `text % args`. -/
structure Objects where
  Obj : Type
  ofStr : Str → Obj
  str : Obj → Except PyError Str
  truth : Obj → Except PyError Bool
  isBytesLike : Obj → Bool
  percent : Str → RecordArgs Obj → Except PyError Str
  str_ofStr : ∀ text, str (ofStr text) = .ok text

/-- A `logging.LogRecord`. -/
structure Record (O : Objects) where
  level : Nat
  msg : O.Obj
  args : RecordArgs O.Obj

variable {O : Objects}

/-- `bool(args)`. -/
def RecordArgs.truth : RecordArgs O.Obj → Except PyError Bool
  | .tuple items => .ok !items.isEmpty
  | .single obj => O.truth obj

/-- `record.getMessage()`. -/
def Record.getMessage (record : Record O) : Except PyError Str := do
  let msg ← O.str record.msg
  if (← record.args.truth) = true then O.percent msg record.args else return msg

/-! ## The filter -/

def REDACTED : String := "<redacted>"

def hexDigits : Str := Str.ofString "0123456789abcdefABCDEF"

def quotes : Str := Str.ofString "'\""

/-- `(?:0x)?[0-9a-fA-F]{32,}`. -/
def HEXISH : RegularExpression CodePoint :=
  optional (char (CodePoint.ofChar '0') * char (CodePoint.ofChar 'x')) * atLeast 32 (oneOf hexDigits)

/-- `b['"]`. -/
def BYTES_REPR : RegularExpression CodePoint := char (CodePoint.ofChar 'b') * oneOf quotes

/-- `_looks_sensitive(record)`. -/
def looksSensitive (record : Record O) : Bool :=
  match record.args with
  | .tuple items => items.any O.isBytesLike
  | .single obj => O.isBytesLike obj

/-- `record.msg = message`, and `record.args = ()`. -/
def Record.say (record : Record O) (message : String) : Record O :=
  { record with msg := O.ofStr (Str.ofString message), args := .tuple [] }

namespace RedactingFilter

/-- `filter(record)`: its answer, and the record as it leaves it. -/
def filter (record : Record O) : Bool × Record O :=
  match record.getMessage with
  | .error _ => (true, record.say REDACTED)
  | .ok message =>
      if looksSensitive record = true ∨ HEXISH.search message = true ∨
          BYTES_REPR.search message = true then
        (true, record.say (REDACTED ++ " (message suppressed by RedactingFilter)"))
      else (true, record)

end RedactingFilter

/-- Neither pattern is found. -/
def Quiet (text : Str) : Prop := HEXISH.search text = false ∧ BYTES_REPR.search text = false

/-- The optional `0x` does not matter to `search`. -/
theorem search_HEXISH (text : Str) :
    HEXISH.search text = (atLeast 32 (oneOf hexDigits)).search text :=
  search_optional_mul _ _ _

/-- 32 hexadecimal digits in a row. -/
theorem search_HEXISH_iff {text : Str} : HEXISH.search text = true ↔
    ∃ run, 32 ≤ run.length ∧ (∀ c ∈ run, c ∈ hexDigits) ∧ run <:+: text := by
  rw [search_HEXISH, search_iff]
  simp only [mem_atLeast_oneOf, and_assoc]

/-- `b` and one of the two quotes. -/
theorem mem_BYTES_REPR {text : Str} : text ∈ BYTES_REPR.matches' ↔
    ∃ quote ∈ quotes, text = [CodePoint.ofChar 'b', quote] := by
  rw [BYTES_REPR, matches'_mul, Language.mem_mul]
  constructor
  · intro h
    obtain ⟨first, hfirst, rest, hrest, rfl⟩ := h
    obtain ⟨quote, hquote, rfl⟩ := mem_oneOf.mp hrest
    rw [matches'_char] at hfirst
    exact ⟨quote, hquote, by rw [show first = _ from hfirst]; rfl⟩
  · intro h
    obtain ⟨quote, hquote, rfl⟩ := h
    exact ⟨_, rfl, [quote], mem_oneOf.mpr ⟨quote, hquote, rfl⟩, rfl⟩

/-- A `b` and a quotation mark. -/
theorem search_BYTES_REPR_iff {text : Str} : BYTES_REPR.search text = true ↔
    ∃ quote ∈ quotes, [CodePoint.ofChar 'b', quote] <:+: text := by
  simp only [search_iff, mem_BYTES_REPR]
  constructor
  · intro h
    obtain ⟨found, ⟨quote, hquote, rfl⟩, hin⟩ := h
    exact ⟨quote, hquote, hin⟩
  · intro h
    obtain ⟨quote, hquote, hin⟩ := h
    exact ⟨_, ⟨quote, hquote, rfl⟩, hin⟩

/-- A part of a quiet text. -/
theorem Quiet.part {text part : Str} (h : Quiet text) (hpart : part <:+: text) : Quiet part := by
  obtain ⟨hhex, hrepr⟩ := h
  refine ⟨Bool.eq_false_iff.mpr fun hfound => ?_, Bool.eq_false_iff.mpr fun hfound => ?_⟩
  · rw [search_mono hfound hpart] at hhex
    contradiction
  · rw [search_mono hfound hpart] at hrepr
    contradiction

/-- A short text without quotation marks. -/
theorem quiet_of_length_lt {text : Str} (hlength : text.length < 32)
    (hquotes : ∀ quote ∈ quotes, quote ∉ text) : Quiet text := by
  refine ⟨Bool.eq_false_iff.mpr fun hfound => ?_, Bool.eq_false_iff.mpr fun hfound => ?_⟩
  · obtain ⟨run, hrun, -, hin⟩ := search_HEXISH_iff.mp hfound
    have hle := hin.length_le
    omega
  · obtain ⟨quote, hquote, hin⟩ := search_BYTES_REPR_iff.mp hfound
    exact hquotes quote hquote (hin.subset (by simp))

/-- A short text of the program without quotation marks. -/
def short (literal : String) : Bool :=
  decide ((Str.ofString literal).length < 32) &&
    quotes.all fun quote => !(Str.ofString literal).contains quote

/-- A short literal without a `b` before a quote is quiet. -/
theorem quiet_of_short {literal : String} (h : short literal = true) :
    Quiet (Str.ofString literal) := by
  rw [short, Bool.and_eq_true, decide_eq_true_eq, List.all_eq_true] at h
  exact quiet_of_length_lt h.1 fun quote hquote => by simpa using h.2 quote hquote

/-- **A separator cuts a text in two.** -/
theorem quiet_append_cons {c : CodePoint} (hc : c ∉ hexDigits ∧ c ∉ quotes) (before after : Str) :
    Quiet (before ++ c :: after) ↔ Quiet before ∧ Quiet after := by
  have hhex : (atLeast 32 (oneOf hexDigits)).Avoids c := avoids_atLeast_oneOf hc.1
  have hrepr : BYTES_REPR.Avoids c := by
    intro found hfound hmem
    obtain ⟨quote, hquote, rfl⟩ := mem_BYTES_REPR.mp hfound
    obtain rfl | rfl := List.mem_pair.mp hmem
    · exact hc.1 (by decide)
    · exact hc.2 hquote
  simp only [Quiet, search_HEXISH, search_append_cons hhex rfl, search_append_cons hrepr rfl,
    Bool.or_eq_false_iff]
  exact and_and_and_comm

theorem quiet_nil : Quiet [] := quiet_of_length_lt (by decide) (by simp)

/-- A separator in front can be dropped. -/
theorem quiet_cons {c : CodePoint} (hc : c ∉ hexDigits ∧ c ∉ quotes) (text : Str) :
    Quiet (c :: text) ↔ Quiet text :=
  (quiet_append_cons hc [] text).trans (and_iff_right quiet_nil)

/-! ## What the filter lets out -/

/-- `chr(b)`. -/
def chr (b : UInt8) : CodePoint := ⟨b.toNat, b.toNat_lt.trans (by decide)⟩

/-- A record that goes through as it is: it renders to a quiet text, and has no
bytes among its arguments. -/
structure Record.Passes (record : Record O) : Prop where
  plain : looksSensitive record = false
  quiet : ∃ message, record.getMessage = .ok message ∧ Quiet message

/-- What the filter puts in the place of a message is quiet. -/
theorem passes_say (record : Record O) {message : String} (h : Quiet (Str.ofString message)) :
    (record.say message).Passes := by
  refine ⟨rfl, Str.ofString message, ?_, h⟩
  simp only [Record.getMessage, Record.say, O.str_ofStr]
  rfl

theorem quiet_redacted : Quiet (Str.ofString REDACTED) :=
  quiet_of_short (by decide +kernel)

/-- The message that replaces a secret passes itself. -/
theorem quiet_suppressed :
    Quiet (Str.ofString (REDACTED ++ " (message suppressed by RedactingFilter)")) :=
  (quiet_append_cons (show CodePoint.ofChar ' ' ∉ hexDigits ∧ CodePoint.ofChar ' ' ∉ quotes by decide)
      (Str.ofString "<redacted> (message suppressed") (Str.ofString "by RedactingFilter)")).mpr
    ⟨quiet_of_short (by decide +kernel), quiet_of_short (by decide +kernel)⟩

namespace RedactingFilter

/-- What the filter does: it leaves a record that passes alone, and blanks any other. -/
theorem filter_cases (record : Record O) :
    record.Passes ∧ filter record = (true, record) ∨
      ¬record.Passes ∧ ∃ message, Quiet (Str.ofString message) ∧
        filter record = (true, record.say message) := by
  unfold filter
  cases hmessage : record.getMessage with
  | error exc =>
      refine .inr ⟨fun h => ?_, REDACTED, quiet_redacted, rfl⟩
      obtain ⟨message, hok, -⟩ := h.quiet
      cases hmessage.symm.trans hok
  | ok message =>
      by_cases hfound : looksSensitive record = true ∨ HEXISH.search message = true ∨
          BYTES_REPR.search message = true
      · refine .inr ⟨fun h => ?_, _, quiet_suppressed, if_pos hfound⟩
        obtain ⟨message', hok, hquiet⟩ := h.quiet
        obtain rfl := Except.ok.inj (hmessage.symm.trans hok)
        simp [h.plain, hquiet.1, hquiet.2] at hfound
      · refine .inl ⟨?_, if_neg hfound⟩
        simp only [not_or, Bool.not_eq_true] at hfound
        exact ⟨hfound.1, message, hmessage, hfound.2⟩

/-- The filter never says no. -/
theorem filter_eq (record : Record O) : filter record = (true, (filter record).2) := by
  obtain ⟨-, h⟩ | ⟨-, message, -, h⟩ := filter_cases record <;> rw [h]

/-- What comes out passes. -/
theorem passes_filter (record : Record O) : (filter record).2.Passes := by
  obtain ⟨hpasses, h⟩ | ⟨-, message, hquiet, h⟩ := filter_cases record
  · rw [h]
    exact hpasses
  · rw [h]
    exact passes_say record hquiet

/-- Just the records that pass are left alone. -/
theorem filter_eq_self_iff (record : Record O) : (filter record).2 = record ↔ record.Passes := by
  constructor
  · intro h
    rw [← h]
    exact passes_filter record
  · intro hpasses
    obtain ⟨-, h⟩ | ⟨hblanked, -⟩ := filter_cases record
    · rw [h]
    · exact absurd hpasses hblanked

end RedactingFilter

/-- A piece as `%s` and `%r` show it; `reprStr` is `repr` of a string. -/
def Piece.shown (reprStr : Str → Str) (conversion : CodePoint) : Piece → Except PyError Str
  | .int n =>
      if conversion ∈ Str.ofString "dsr" then return decimal n
      else throw (.valueError ["unsupported format character"])
  | piece =>
      let text := match piece with
        | .lit s => Str.ofString s
        | .int n => decimal n
        | .str s => s
        | .repr s => reprStr s
      if conversion = CodePoint.ofChar 's' then return text
      else if conversion = CodePoint.ofChar 'r' then return reprStr text
      else if conversion = CodePoint.ofChar 'd' then
        throw (.typeError ["%d format: a real number is required, not str"])
      else throw (.valueError ["unsupported format character"])

/-- `format % args`, with the conversions `%d`, `%s`, `%r` and `%%`; the flag says
that a `%` has been read. -/
def percentFormat (reprStr : Str → Str) : Bool → Str → Text → Except PyError Str
  | false, [], [] => return []
  | false, [], _ :: _ => throw (.typeError ["not all arguments converted during string formatting"])
  | true, [], _ => throw (.valueError ["incomplete format"])
  | false, c :: format, args =>
      if c = CodePoint.ofChar '%' then percentFormat reprStr true format args
      else do return c :: (← percentFormat reprStr false format args)
  | true, c :: format, args =>
      if c = CodePoint.ofChar '%' then do return c :: (← percentFormat reprStr false format args)
      else match args with
        | [] => throw (.typeError ["not enough arguments for format string"])
        | arg :: args => do
            let text ← Piece.shown reprStr c arg
            return text ++ (← percentFormat reprStr false format args)

/-- The objects in the records of this package: strings and integers. -/
def pieces (reprStr : Str → Str) : Objects where
  Obj := Piece
  ofStr := .str
  str := Piece.shown reprStr (CodePoint.ofChar 's')
  truth _ := .ok true
  isBytesLike _ := false
  percent format
    | .tuple args => percentFormat reprStr false format args
    | .single arg => percentFormat reprStr false format [arg]
  str_ofStr _ := rfl

/-- A record of this package, as the filter gets it. -/
def LogRecord.record (reprStr : Str → Str) (r : LogRecord) : Record (pieces reprStr) :=
  ⟨r.level, .lit r.format, .tuple r.args⟩

/-! ## Rendering -/

section

variable {reprStr : Str → Str}

/-- A character that is no part of what the patterns find, and no `%`. -/
def isSeparator (c : CodePoint) : Bool :=
  !hexDigits.contains c && !quotes.contains c && c != CodePoint.ofChar '%'

/-- A separator belongs to neither pattern, and is no `%`. -/
theorem isSeparator_iff {c : CodePoint} : isSeparator c = true ↔
    (c ∉ hexDigits ∧ c ∉ quotes) ∧ c ≠ CodePoint.ofChar '%' := by
  simp [isSeparator]

/-- A character other than `%` is copied. -/
theorem percentFormat_cons {c : CodePoint} (hc : c ≠ CodePoint.ofChar '%') (format : Str)
    (args : Text) :
    percentFormat reprStr false (c :: format) args =
      (percentFormat reprStr false format args).map (c :: ·) := by
  rw [percentFormat, if_neg hc]
  cases percentFormat reprStr false format args <;> rfl

/-- Literal text stays. -/
theorem percentFormat_append {literal : Str} (h : CodePoint.ofChar '%' ∉ literal) (format : Str)
    (args : Text) :
    percentFormat reprStr false (literal ++ format) args =
      (percentFormat reprStr false format args).map (literal ++ ·) := by
  induction literal with
  | nil =>
      rw [List.nil_append]
      cases percentFormat reprStr false format args <;> rfl
  | cons c literal ih =>
      rw [List.mem_cons, not_or] at h
      rw [List.cons_append, percentFormat_cons (Ne.symm h.1), ih h.2]
      cases percentFormat reprStr false format args <;> rfl

/-- A conversion gives way to its argument. -/
theorem percentFormat_conversion {conversion : CodePoint}
    (hconversion : conversion ≠ CodePoint.ofChar '%') {arg : Piece} {text : Str}
    (hshown : Piece.shown reprStr conversion arg = .ok text) (format : Str) (args : Text) :
    percentFormat reprStr false (CodePoint.ofChar '%' :: conversion :: format) (arg :: args) =
      (percentFormat reprStr false format args).map (text ++ ·) := by
  rw [percentFormat, if_pos rfl, percentFormat, if_neg hconversion]
  simp only [hshown]
  cases percentFormat reprStr false format args <;> rfl

/-- The format renders, to a text that is quiet just when `quiet` holds. -/
def Spells (reprStr : Str → Str) (format : String) (args : Text) (quiet : Prop) : Prop :=
  ∃ message, percentFormat reprStr false (Str.ofString format) args = .ok message ∧
    (Quiet message ↔ quiet)

/-- Text with nothing to fill in. -/
theorem Spells.literal {literal : String} (h : short literal = true)
    (hpercent : CodePoint.ofChar '%' ∉ Str.ofString literal) :
    Spells reprStr literal [] True := by
  have hformat := @percentFormat_append reprStr _ hpercent [] []
  rw [List.append_nil] at hformat
  refine ⟨Str.ofString literal, hformat.trans ?_, iff_true_intro (quiet_of_short h)⟩
  show Except.ok (Str.ofString literal ++ []) = _
  rw [List.append_nil]

/-- The format starts with a separator, or is empty. -/
def opens (format : String) : Bool :=
  match Str.ofString format with
  | [] => true
  | c :: _ => isSeparator c

/-- The format is some text up to a separator, a conversion, and the rest. -/
def splits (format before : String) (separator conversion : Char) (after : String) : Bool :=
  decide (Str.ofString format = Str.ofString before ++ CodePoint.ofChar separator ::
      CodePoint.ofChar '%' :: CodePoint.ofChar conversion :: Str.ofString after) &&
    decide (CodePoint.ofChar '%' ∉ Str.ofString before) && isSeparator (CodePoint.ofChar separator) &&
    decide (CodePoint.ofChar conversion ≠ CodePoint.ofChar '%') && opens after

/-- What begins with a separator renders to what begins with it. -/
theorem opens_rendered {format : String} (h : opens format = true) {args : Text} {message : Str}
    (hmessage : percentFormat reprStr false (Str.ofString format) args = .ok message) :
    message = [] ∨ ∃ c rest, isSeparator c = true ∧ message = c :: rest := by
  unfold opens at h
  cases hformat : Str.ofString format with
  | nil =>
      rw [hformat] at hmessage
      cases args with
      | nil => exact .inl (Except.ok.inj hmessage).symm
      | cons arg args => cases hmessage
  | cons c rest =>
      rw [hformat] at h hmessage
      rw [percentFormat_cons (isSeparator_iff.mp h).2] at hmessage
      cases hrest : percentFormat reprStr false rest args with
      | error exc =>
          rw [hrest] at hmessage
          cases hmessage
      | ok text =>
          rw [hrest] at hmessage
          exact .inr ⟨c, text, h, (Except.ok.inj hmessage).symm⟩

/-- A conversion between separators adds what its argument shows. -/
theorem Spells.conversion {format before after : String} {separator conversion : Char} {arg : Piece}
    {args : Text} {text : Str} {quiet : Prop} (h : Spells reprStr after args quiet)
    (hsplits : splits format before separator conversion after = true)
    (hbefore : Quiet (Str.ofString before))
    (hshown : Piece.shown reprStr (CodePoint.ofChar conversion) arg = .ok text) :
    Spells reprStr format (arg :: args) (Quiet text ∧ quiet) := by
  obtain ⟨message, hmessage, hquiet⟩ := h
  simp only [splits, Bool.and_eq_true, decide_eq_true_eq] at hsplits
  obtain ⟨⟨⟨⟨hformat, hpercent⟩, hseparator⟩, hconversion⟩, hopens⟩ := hsplits
  obtain ⟨hcut, hne⟩ := isSeparator_iff.mp hseparator
  refine ⟨Str.ofString before ++ CodePoint.ofChar separator :: (text ++ message), ?_, ?_⟩
  · rw [hformat, percentFormat_append hpercent, percentFormat_cons hne,
      percentFormat_conversion hconversion hshown, hmessage]
    rfl
  · rw [quiet_append_cons hcut, ← hquiet, and_iff_right hbefore]
    obtain rfl | ⟨c, rest, hc, rfl⟩ := opens_rendered hopens hmessage
    · rw [List.append_nil]
      exact (and_iff_left quiet_nil).symm
    · have hcut' := (isSeparator_iff.mp hc).1
      rw [quiet_append_cons hcut', quiet_cons hcut']

/-- A number below 10 ** 31 has too few digits to look like hex. -/
theorem quiet_decimal {n : ℕ} (h : n < 10 ^ 31) : Quiet (decimal n) := by
  have hdigits : decimal n = Json.digitsOf n := by
    rw [Json.decimal_eq, if_neg (by omega), Int.natAbs_natCast]
  rw [hdigits]
  refine quiet_of_length_lt ?_ fun quote hquote hmem => ?_
  · rw [Json.digitsOf, List.length_map]
    exact Nat.lt_succ_of_le (Nat.toDigits_length 10 n 31 (by decide) h)
  · have hdigit := Json.isDigit_of_mem_digitsOf hmem
    obtain rfl | rfl := List.mem_pair.mp hquote
    · exact absurd hdigit (by decide)
    · exact absurd hdigit (by decide)

/-! ## The package's own records -/

/-- The records that the channels, `connect` and the callback of `serve` hand to the
logger.  The numbers have up to 31 digits. -/
inductive OwnRecord : LogRecord → Prop where
  | sendTransport {seq len : ℕ} (hseq : seq < 10 ^ 31) (hlen : len < 10 ^ 31) :
      OwnRecord (debug "send TRANSPORT seq=%d len=%d" [.int seq, .int len])
  | sendControl {msgType : MessageType} {seq : ℕ} (hseq : seq < 10 ^ 31) :
      OwnRecord (debug "send %s seq=%d" [msgType.name, .int seq])
  | rekeyDue {count : ℕ} (hcount : count < 10 ^ 31) :
      OwnRecord (debug "rekey due after %d messages" [.int count])
  | recvTransport {seq len : ℕ} (hseq : seq < 10 ^ 31) (hlen : len < 10 ^ 31) :
      OwnRecord (debug "recv TRANSPORT seq=%d len=%d" [.int seq, .int len])
  | recvRekey {seq : ℕ} (hseq : seq < 10 ^ 31) :
      OwnRecord (debug "recv REKEY seq=%d -> ratcheted recv key" [.int seq])
  | recvClose {seq : ℕ} (hseq : seq < 10 ^ 31) :
      OwnRecord (debug "recv CLOSE seq=%d -> channel closed" [.int seq])
  | expectedKey : OwnRecord (debug "peer verified against expected_peer_key" [])
  | pinMatched {label : Str} :
      OwnRecord (debug "peer %s verified against existing pin" [.str label])
  | pinned {label : Str} :
      OwnRecord (debug "peer %s trusted on first use (pinned)" [.str label])
  | certificate {subject : Str} :
      OwnRecord (debug "peer certificate verified (subject=%s)" [.str subject])
  | disconnected {address : Str} :
      OwnRecord (debug "client %s disconnected" [.str address])
  | rejected {address : Str} {exc : PyError} :
      OwnRecord (warning "rejecting client %s: %s" [.str address, exc.typeName])

/-- The name of an exception class is quiet. -/
theorem quiet_typeName (exc : PyError) : Quiet (Str.ofString exc.typeName) := by
  have hshort : short exc.typeName = true := by
    cases exc <;> (simp only [PyError.typeName]; decide +kernel)
  exact quiet_of_short hshort

theorem quiet_msgType (msgType : MessageType) : Quiet (Str.ofString msgType.name) := by
  cases msgType <;> exact quiet_of_short (by decide +kernel)

theorem quiet_certificate : Quiet (Str.ofString "peer certificate verified (subject") :=
  (quiet_append_cons (show CodePoint.ofChar ' ' ∉ hexDigits ∧ CodePoint.ofChar ' ' ∉ quotes by decide)
      (Str.ofString "peer certificate verified") (Str.ofString "(subject")).mpr
    ⟨quiet_of_short (by decide +kernel), quiet_of_short (by decide +kernel)⟩

theorem quiet_expectedKey : Quiet (Str.ofString "peer verified against expected_peer_key") :=
  (quiet_append_cons (show CodePoint.ofChar ' ' ∉ hexDigits ∧ CodePoint.ofChar ' ' ∉ quotes by decide)
      (Str.ofString "peer verified against") (Str.ofString "expected_peer_key")).mpr
    ⟨quiet_of_short (by decide +kernel), quiet_of_short (by decide +kernel)⟩

/-- Numbers between separators leave a text as quiet as it is. -/
theorem Spells.number {after : String} {n : ℕ} {args : Text} {quiet : Prop}
    (h : Spells reprStr after args quiet) (hn : n < 10 ^ 31) (format before : String)
    (separator : Char) (hsplits : splits format before separator 'd' after = true)
    (hbefore : short before = true) :
    Spells reprStr format (.int n :: args) quiet := by
  obtain ⟨message, hmessage, hquiet⟩ := @Spells.conversion _ _ _ _ _ _ (.int n) _ _ _ h hsplits
    (quiet_of_short hbefore) rfl
  exact ⟨message, hmessage, hquiet.trans (and_iff_right (quiet_decimal hn))⟩

/-- A string between separators: the text is as quiet as the string. -/
theorem Spells.string {after : String} {args : Text} {quiet : Prop}
    (h : Spells reprStr after args quiet) (text : Str) (format before : String) (separator : Char)
    (hsplits : splits format before separator 's' after = true)
    (hbefore : Quiet (Str.ofString before)) :
    Spells reprStr format (.str text :: args) (Quiet text ∧ quiet) :=
  @Spells.conversion _ _ _ _ _ _ (.str text) _ _ _ h hsplits hbefore rfl

/-- A name of the program between separators. -/
theorem Spells.name {after name : String} {args : Text} {quiet : Prop}
    (h : Spells reprStr after args quiet) (hname : Quiet (Str.ofString name))
    (format before : String) (separator : Char)
    (hsplits : splits format before separator 's' after = true) (hbefore : short before = true) :
    Spells reprStr format (.lit name :: args) quiet := by
  obtain ⟨message, hmessage, hquiet⟩ := @Spells.conversion _ _ _ _ _ _ (.lit name) _ _ _ h hsplits
    (quiet_of_short hbefore) rfl
  exact ⟨message, hmessage, hquiet.trans (and_iff_right hname)⟩

/-- The strings among the arguments are quiet. -/
def QuietArgs (r : LogRecord) : Prop := ∀ s, .str s ∈ r.args → Quiet s

/-- With arguments, the message is the format filled in. -/
theorem Spells.getMessage {r : LogRecord} {quiet : Prop} (h : Spells reprStr r.format r.args quiet)
    (hargs : r.args ≠ []) (hquiet : quiet ↔ QuietArgs r) :
    ∃ message, (r.record reprStr).getMessage = .ok message ∧ (Quiet message ↔ QuietArgs r) := by
  obtain ⟨message, hmessage, hspelled⟩ := h
  refine ⟨message, ?_, hspelled.trans hquiet⟩
  rw [← hmessage]
  cases hlist : r.args with
  | nil => exact absurd hlist hargs
  | cons arg args =>
      unfold Record.getMessage LogRecord.record
      rw [hlist]
      rfl

/-- **The package's own records** render, and to a text that is quiet just when the
strings among the arguments are. -/
theorem OwnRecord.getMessage {r : LogRecord} (h : OwnRecord r) (reprStr : Str → Str) :
    ∃ message, (r.record reprStr).getMessage = .ok message ∧ (Quiet message ↔ QuietArgs r) := by
  have hend : Spells reprStr "" [] True := .literal (by decide +kernel) (by decide +kernel)
  have hlen : ∀ {len : ℕ}, len < 10 ^ 31 → Spells reprStr " len=%d" [.int len] True :=
    fun h => hend.number h " len=%d" " len" '=' (by decide +kernel) (by decide +kernel)
  cases h with
  | sendTransport hs hl =>
      have h := (hlen hl).number hs "send TRANSPORT seq=%d len=%d" "send TRANSPORT seq" '='
        (by decide +kernel) (by decide +kernel)
      exact Spells.getMessage h (by simp [debug]) (by simp [QuietArgs, debug])
  | @sendControl msgType seq hs =>
      have h := ((hend.number hs " seq=%d" " seq" '=' (by decide +kernel) (by decide +kernel)).name
        (quiet_msgType msgType)) "send %s seq=%d" "send" ' ' (by decide +kernel) (by decide +kernel)
      exact Spells.getMessage h (by simp [debug]) (by simp [QuietArgs, debug])
  | rekeyDue hc =>
      have hrest : Spells reprStr " messages" [] True :=
        .literal (by decide +kernel) (by decide +kernel)
      have h := hrest.number hc "rekey due after %d messages" "rekey due after" ' '
        (by decide +kernel) (by decide +kernel)
      exact Spells.getMessage h (by simp [debug]) (by simp [QuietArgs, debug])
  | recvTransport hs hl =>
      have h := (hlen hl).number hs "recv TRANSPORT seq=%d len=%d" "recv TRANSPORT seq" '='
        (by decide +kernel) (by decide +kernel)
      exact Spells.getMessage h (by simp [debug]) (by simp [QuietArgs, debug])
  | recvRekey hs =>
      have hrest : Spells reprStr " -> ratcheted recv key" [] True :=
        .literal (by decide +kernel) (by decide +kernel)
      have h := hrest.number hs "recv REKEY seq=%d -> ratcheted recv key" "recv REKEY seq" '='
        (by decide +kernel) (by decide +kernel)
      exact Spells.getMessage h (by simp [debug]) (by simp [QuietArgs, debug])
  | recvClose hs =>
      have hrest : Spells reprStr " -> channel closed" [] True :=
        .literal (by decide +kernel) (by decide +kernel)
      have h := hrest.number hs "recv CLOSE seq=%d -> channel closed" "recv CLOSE seq" '='
        (by decide +kernel) (by decide +kernel)
      exact Spells.getMessage h (by simp [debug]) (by simp [QuietArgs, debug])
  | expectedKey =>
      exact ⟨_, rfl, iff_of_true quiet_expectedKey (by simp [QuietArgs, debug])⟩
  | @pinMatched label =>
      have hrest : Spells reprStr " verified against existing pin" [] True :=
        .literal (by decide +kernel) (by decide +kernel)
      have h := hrest.string label "peer %s verified against existing pin" "peer" ' '
        (by decide +kernel) (quiet_of_short (by decide +kernel))
      exact Spells.getMessage h (by simp [debug]) (by simp [QuietArgs, debug])
  | @pinned label =>
      have hrest : Spells reprStr " trusted on first use (pinned)" [] True :=
        .literal (by decide +kernel) (by decide +kernel)
      have h := hrest.string label "peer %s trusted on first use (pinned)" "peer" ' '
        (by decide +kernel) (quiet_of_short (by decide +kernel))
      exact Spells.getMessage h (by simp [debug]) (by simp [QuietArgs, debug])
  | @certificate subject =>
      have hrest : Spells reprStr ")" [] True := .literal (by decide +kernel) (by decide +kernel)
      have h := hrest.string subject "peer certificate verified (subject=%s)"
        "peer certificate verified (subject" '=' (by decide +kernel) quiet_certificate
      exact Spells.getMessage h (by simp [debug]) (by simp [QuietArgs, debug])
  | @disconnected address =>
      have hrest : Spells reprStr " disconnected" [] True :=
        .literal (by decide +kernel) (by decide +kernel)
      have h := hrest.string address "client %s disconnected" "client" ' '
        (by decide +kernel) (quiet_of_short (by decide +kernel))
      exact Spells.getMessage h (by simp [debug]) (by simp [QuietArgs, debug])
  | @rejected address exc =>
      have h := ((hend.name (quiet_typeName exc) ": %s" ":" ' ' (by decide +kernel)
        (by decide +kernel)).string address "rejecting client %s: %s" "rejecting client" ' '
          (by decide +kernel) (quiet_of_short (by decide +kernel)))
      exact Spells.getMessage h (by simp [warning]) (by simp [QuietArgs, warning])

/-- The filter leaves a record of the package alone just when its strings are quiet. -/
theorem OwnRecord.filter_iff {r : LogRecord} (h : OwnRecord r) (reprStr : Str → Str) :
    RedactingFilter.filter (r.record reprStr) = (true, r.record reprStr) ↔ QuietArgs r := by
  obtain ⟨message, hmessage, hquiet⟩ := h.getMessage reprStr
  rw [RedactingFilter.filter_eq, Prod.mk.injEq, and_iff_right rfl,
    RedactingFilter.filter_eq_self_iff, ← hquiet]
  constructor
  · intro hpasses
    obtain ⟨message', hmessage', hquiet'⟩ := hpasses.quiet
    obtain rfl := Except.ok.inj (hmessage.symm.trans hmessage')
    exact hquiet'
  · intro hquiet'
    exact ⟨by simp [looksSensitive, LogRecord.record, pieces], message, hmessage, hquiet'⟩

end

/-! ## The records of a channel -/

variable {Conn Key T : Type} [Zero T] [LE T]

/-- A scheme whose plaintexts are no longer than their ciphertexts. -/
def Shrinks (A : Aead Key) : Prop :=
  ∀ key nonce ad ciphertext plaintext, A.decrypt key nonce ad ciphertext = some plaintext →
    plaintext.length ≤ ciphertext.length

namespace SecureChannel

/-- The log holds records of the package, without strings; and what it counts is
bounded by the nonce. -/
structure Tidy (c : SecureChannel Key T) : Prop where
  own : ∀ r ∈ c.log, OwnRecord r ∧ QuietArgs r
  nonce_le : c.sendCipher.nonce ≤ MAX_NONCE
  count_le : c.rekey.count ≤ c.sendCipher.nonce

namespace Tidy

variable {A : Aead Key} {c : SecureChannel Key T}

/-- One more record of the package, with quiet arguments. -/
theorem own_append (h : c.Tidy) {r : LogRecord} (hown : OwnRecord r) (hquiet : QuietArgs r) :
    ∀ r' ∈ c.log ++ [r], OwnRecord r' ∧ QuietArgs r' := by
  intro r' hmem
  obtain hold | hnew := List.mem_append.mp hmem
  · exact h.own r' hold
  · obtain rfl := List.mem_singleton.mp hnew
    exact ⟨hown, hquiet⟩

/-- A skipped number is not logged. -/
theorem skipSeq (h : c.Tidy) : c.skipSeq.Tidy := ⟨h.own, h.nonce_le, h.count_le⟩

/-- Polling the rekey policy logs nothing. -/
theorem polled (h : c.Tidy) : c.polled.Tidy := by
  have hcount : c.rekey.afterDue.count = c.rekey.count := by
    unfold RekeyPolicy.afterDue
    split <;> rfl
  exact ⟨h.own, h.nonce_le, hcount.trans_le h.count_le⟩

/-- The record of a due rekey names the count. -/
theorem rekeyDue (h : c.Tidy) : c.rekeyDue.Tidy := by
  have hpolled := h.polled
  have hlt : c.polled.rekey.count < 10 ^ 31 :=
    (hpolled.count_le.trans hpolled.nonce_le).trans_lt (by decide)
  exact ⟨h.own_append (.rekeyDue hlt) (by simp [QuietArgs, debug]), hpolled.nonce_le,
    hpolled.count_le⟩

/-- A control frame. -/
theorem afterControl (h : c.Tidy) (hcan : c.CanEmit) (msgType : MessageType) :
    (c.afterControl A msgType).Tidy := by
  obtain ⟨hseq, hnonce⟩ := hcan
  have hlt : c.sendSeq < 10 ^ 31 := hseq.trans_lt (by decide)
  exact ⟨h.own_append (.sendControl hlt) (by simp [QuietArgs, debug]),
    Nat.lt_of_le_of_ne h.nonce_le hnonce, Nat.le_succ_of_le h.count_le⟩

/-- The frames before a transport frame keep the channel tidy. -/
theorem beforeTransport [Sub T] [DecidableLE T] (h : c.Tidy)
    (hdue : c.rekey.isDue = true → c.CanEmit) : (c.beforeTransport A).Tidy := by
  unfold SecureChannel.beforeTransport
  split_ifs with hrekey
  · have hcontrol : (c.rekeyDue.afterControl A .rekey).Tidy :=
      h.rekeyDue.afterControl (hdue hrekey) .rekey
    exact ⟨hcontrol.own, hcontrol.nonce_le, Nat.zero_le _⟩
  · exact h.polled

/-- The transport frame logs its number and its length. -/
theorem afterTransport (h : c.Tidy) (hcan : c.CanEmit) {plaintext : Bytes}
    (hlen : plaintext.length ≤ MAX_PLAINTEXT) : (c.afterTransport A plaintext).Tidy := by
  obtain ⟨hseq, hnonce⟩ := hcan
  have hlt : c.sendSeq < 10 ^ 31 := hseq.trans_lt (by decide)
  exact ⟨h.own_append (.sendTransport hlt (hlen.trans_lt (by decide)))
      (by simp [QuietArgs, debug]),
    Nat.lt_of_le_of_ne h.nonce_le hnonce, Nat.succ_le_succ h.count_le⟩

/-- An authenticated frame. -/
theorem receive (h : c.Tidy) (msgType : MessageType) {seq : ℕ} (hseq : seq ≤ MAX_SEQ)
    {plaintext : Bytes} (hlen : plaintext.length ≤ MAX_PAYLOAD) :
    ((SecureChannel.receive A msgType seq plaintext).run c).2.Tidy := by
  have hlt : seq < 10 ^ 31 := hseq.trans_lt (by decide)
  cases msgType with
  | transport =>
      exact ⟨h.own_append (.recvTransport hlt (hlen.trans_lt (by decide)))
        (by simp [QuietArgs, debug]), h.nonce_le, h.count_le⟩
  | rekey =>
      exact ⟨h.own_append (.recvRekey hlt) (by simp [QuietArgs, debug]), h.nonce_le, h.count_le⟩
  | close =>
      exact ⟨h.own_append (.recvClose hlt) (by simp [QuietArgs, debug]), h.nonce_le, h.count_le⟩
  | handshake => exact h

variable [Sub T] [DecidableLE T]

/-- One call. -/
theorem call (h : c.Tidy) (hA : Shrinks A) (op : Call) : (c.call A op).2.Tidy := by
  cases op with
  | encrypt arg =>
      show ((encrypt A arg).run c).2.Tidy
      have hout := encrypt_outcome A arg c
      generalize (encrypt A arg).run c = r at hout
      cases hout with
      | closed => exact h
      | notBytes => exact h
      | tooLarge => exact h
      | rekeyFailed => exact h.rekeyDue.skipSeq
      | transportFailed _ _ hdue => exact (h.beforeTransport hdue).skipSeq
      | sent _ hlen hdue hcan => exact (h.beforeTransport hdue).afterTransport hcan hlen
  | closeFrame =>
      show ((closeFrame A).run c).2.Tidy
      rw [run_closeFrame]
      split_ifs with hclosed hcan
      · exact h
      · have hcontrol := h.afterControl (A := A) hcan .close
        exact ⟨hcontrol.own, hcontrol.nonce_le, hcontrol.count_le⟩
      · exact h.skipSeq
  | decrypt wire =>
      show ((decrypt A wire).run c).2.Tidy
      have hout := decrypt_outcome A wire c
      generalize (decrypt A wire).run c = r at hout
      cases hout with
      | @authenticated frame plaintext _ _ _ _ htag =>
          have hsame : (c.authenticated frame).Tidy := ⟨h.own, h.nonce_le, h.count_le⟩
          exact hsame.receive frame.msgType frame.seq_le
            ((hA _ _ _ _ _ htag).trans frame.payload_le)
      | closed => exact h
      | malformed => exact h
      | replayed => exact h
      | exhausted => exact h
      | tampered => exact h

end Tidy

end SecureChannel

/-! ## The records of an attempt -/

namespace World

/-- The log holds records of the package. -/
def Own (world : World Key T) : Prop := ∀ r ∈ world.log, OwnRecord r

/-- The code logs records of the package. -/
def LogsOwn {α : Type} (m : Action Key T α) : Prop := ∀ world, world.Own → (m.run world).2.Own

theorem logsOwn_emitLog {r : LogRecord} (h : OwnRecord r) :
    LogsOwn (emitLog r : Action Key T Unit) := by
  intro world hown r' hmem
  obtain hold | hnew := List.mem_append.mp hmem
  · exact hown r' hold
  · rwa [List.mem_singleton.mp hnew]

theorem logsOwn_pure {α : Type} (a : α) : LogsOwn (pure a : Action Key T α) := fun _ h => h

/-- An exception logs nothing. -/
theorem logsOwn_ofExcept {α : Type} (x : Except PyError α) :
    LogsOwn (Imp.ofExcept x : Action Key T α) := by
  intro world h
  rwa [Imp.run_ofExcept]

/-- One action after the other. -/
theorem LogsOwn.bind {α β : Type} {m : Action Key T α} {f : α → Action Key T β} (hm : LogsOwn m)
    (hf : ∀ a, LogsOwn (f a)) : LogsOwn (m >>= f) := by
  intro world h
  have hnext := hm world h
  rw [Imp.run_bind]
  generalize m.run world = r at hnext
  obtain ⟨result, world'⟩ := r
  cases result with
  | ok a => exact hf a world' hnext
  | error exc => exact hnext

/-- A match of a pin logs the label. -/
theorem logsOwn_matchPin (env : Env) (require : Bool) (label : Str) (remoteStatic : Bytes) :
    LogsOwn (matchPin env require label remoteStatic : Action Key T Bool) := by
  unfold matchPin
  refine LogsOwn.bind (fun _ h => h) fun world => ?_
  split_ifs
  · exact (logsOwn_ofExcept _).bind fun _ => (logsOwn_emitLog .pinMatched).bind fun _ => logsOwn_pure _
  · refine LogsOwn.bind (fun _ h => h) fun _ => ?_
    exact (logsOwn_emitLog .pinned).bind fun _ => logsOwn_pure _
  · exact logsOwn_pure _

/-- `_authenticate_peer` logs the label, or that the expected key was there. -/
theorem logsOwn_authenticatePeer (env : Env) (config : Config) (remoteStatic : Bytes) :
    LogsOwn (authenticatePeer env config remoteStatic : Action Key T Bool) := by
  unfold authenticatePeer matchExpectedKey matchKnownPeers
  refine LogsOwn.bind ?_ fun _ => LogsOwn.bind ?_ fun _ => logsOwn_pure _
  · cases config.expectedPeerKey with
    | none => exact logsOwn_pure _
    | some expected =>
        exact (logsOwn_ofExcept _).bind fun _ =>
          (logsOwn_emitLog .expectedKey).bind fun _ => logsOwn_pure _
  · cases config.pinLabel with
    | none => exact logsOwn_pure _
    | some label => exact logsOwn_matchPin env config.require label remoteStatic

/-- The gate logs the subject of the certificate as well. -/
theorem logsOwn_authenticate (env : Env) (config : Config) (clock : ℚ) (peer : Peer Key) :
    LogsOwn (authenticate env config clock peer : Action Key T Unit) := by
  unfold authenticate verifyCertificate
  refine (logsOwn_ofExcept _).bind fun _ => (logsOwn_authenticatePeer env config _).bind fun _ =>
    LogsOwn.bind ?_ fun _ => logsOwn_ofExcept _
  cases config.trustedIssuer with
  | none => exact logsOwn_pure _
  | some trustedIssuer =>
      exact (logsOwn_ofExcept _).bind fun cert =>
        (logsOwn_emitLog .certificate).bind fun _ => logsOwn_pure _

/-- A refused client is logged with its address and the class of the exception. -/
theorem logsOwn_rejectClient (remoteAddress : Str) (exc : PyError) :
    LogsOwn (rejectClient remoteAddress exc : Action Key T Unit) := by
  unfold rejectClient
  split_ifs
  · exact logsOwn_emitLog .disconnected
  · exact (logsOwn_emitLog .rejected).bind fun _ _ h => h
  · exact fun _ h => h

end World

namespace Coroutine

variable (lib : NoiseLibrary Conn Key) (env : Env) (setup : Setup T)

/-- The `except` clauses log a refused client, or nothing. -/
theorem own_fail (s : Coroutine Conn Key T) (h : s.world.Own) (exc : Raised) :
    (fail setup s exc).world.Own := by
  unfold fail
  split
  · exact h
  · exact h
  · next remoteAddress exc _ =>
      have hreject := World.logsOwn_rejectClient remoteAddress exc s.world h
      split
      · next hrun =>
          rw [hrun] at hreject
          exact hreject
      · next hrun =>
          rw [hrun] at hreject
          exact hreject

/-- Once the driver has returned, the gate logs. -/
theorem own_settle (s : Coroutine Conn Key T) (h : s.world.Own) (peer : Peer Key) :
    (settle env setup s peer).world.Own := by
  have hchecks := World.logsOwn_authenticate env setup.config setup.clock peer s.world h
  unfold settle
  split
  · next hrun =>
      rw [hrun] at hchecks
      exact own_fail setup _ hchecks _
  · next hrun _ =>
      rw [hrun] at hchecks
      exact hchecks
  · next hrun _ =>
      rw [hrun] at hchecks
      exact hchecks

/-- The driver itself logs nothing. -/
theorem own_advance (s : Coroutine Conn Key T) (h : s.world.Own) (driver : Driver Conn) :
    (advance lib env setup s driver).world.Own := by
  unfold advance
  cases driver.iterate lib none with
  | returned result peerCert =>
      simp only
      split
      · exact own_settle env setup s h _
      · exact h
  | raised exc => exact own_fail setup s h _
  | waiting => exact h
  | wrote frame driver => exact h
  | read driver => exact h

theorem own_handshake (s : Coroutine Conn Key T) (h : s.world.Own) :
    (handshake lib env setup s).world.Own := by
  unfold handshake
  split
  · exact own_fail setup s h _
  · exact own_advance lib env setup s h _

theorem own_start {world : World Key T} (h : world.Own) :
    (start lib env setup world).world.Own := by
  unfold start
  split
  · split <;> exact h
  · exact own_handshake lib env setup _ h

theorem own_connected (s : Coroutine Conn Key T) (h : s.world.Own) :
    (connected lib env setup s).world.Own := by
  unfold connected
  split
  · exact h
  · split
    · exact own_fail setup { s with opened := true } h _
    · exact own_handshake lib env setup { s with opened := true } h

theorem own_receive (s : Coroutine Conn Key T) (h : s.world.Own) (driver : Driver Conn)
    (message : WsMessage) : (receive lib env setup s driver message).world.Own := by
  unfold receive
  split
  · exact own_advance lib env setup { s with received := s.received ++ [message] } h _
  · exact own_fail setup { s with received := s.received ++ [message] } h _
  · exact h

theorem own_timeOut (s : Coroutine Conn Key T) (h : s.world.Own) :
    (timeOut setup s).world.Own := by
  unfold timeOut
  split_ifs
  · exact own_fail setup s h _
  · exact h

/-- One step. -/
theorem own_step (s : Coroutine Conn Key T) (h : s.world.Own) (event : Resumption) :
    (step lib env setup s event).world.Own := by
  cases event with
  | others store =>
      have hothers : ({ s.world with knownPeers := store } : World Key T).Own := h
      cases hawait : s.await <;> simpa only [step, hawait] using hothers
  | completed => cases hawait : s.await with
    | opening => simpa only [step, hawait] using own_connected lib env setup s h
    | sending driver => simpa only [step, hawait] using own_advance lib env setup s h driver
    | closing exc => cases exc <;> simpa only [step, hawait] using h
    | _ => simpa only [step, hawait] using h
  | message message => cases hawait : s.await with
    | receiving driver => simpa only [step, hawait] using own_receive lib env setup s h driver message
    | _ => simpa only [step, hawait] using h
  | raised exc => cases hawait : s.await with
    | sending driver => simpa only [step, hawait] using own_fail setup s h exc
    | receiving driver => simpa only [step, hawait] using own_fail setup s h exc
    | handling channel => simpa only [step, hawait] using own_fail setup s h exc
    | closing exc' => cases exc' <;> simpa only [step, hawait] using h
    | _ => simpa only [step, hawait] using h
  | timeout => cases hawait : s.await with
    | sending driver => simpa only [step, hawait] using own_timeOut setup s h
    | receiving driver => simpa only [step, hawait] using own_timeOut setup s h
    | _ => simpa only [step, hawait] using h

/-- A run. -/
theorem own_run {world : World Key T} (h : world.Own) (events : List Resumption) :
    (run lib env setup world events).world.Own := by
  unfold run
  induction events using List.reverseRecOn with
  | nil => exact own_start lib env setup h
  | append_singleton events event ih =>
      rw [List.foldl_append]
      exact own_step lib env setup _ ih event

end Coroutine

/-- A new channel under a new policy has logged nothing. -/
theorem SecureChannel.tidy_init [DecidableLE T] {key : Key} {result : HandshakeResult Key}
    (hresult : result.sendCipher = .fresh key) {maxMessages : Int} {maxSeconds : T} {clock : ℕ → T}
    {policy : RekeyPolicy T} (hpolicy : RekeyPolicy.new maxMessages maxSeconds clock = .ok policy)
    (window : ReplayWindow) : (SecureChannel.init result window policy).Tidy := by
  have hcount : policy.count = 0 := by
    unfold RekeyPolicy.new at hpolicy
    split_ifs at hpolicy
    rw [← Except.ok.inj hpolicy]
  refine ⟨by simp [SecureChannel.init], ?_, ?_⟩
  · show result.sendCipher.nonce ≤ MAX_NONCE
    rw [hresult]
    exact Nat.zero_le _
  · show policy.count ≤ _
    rw [hcount]
    exact Nat.zero_le _

/-- **The filter does not hide the package's own records.**  In every run of the
coroutine of `connect` or of the callback of `serve`, and after any calls on a new
channel (with an AEAD that does not make plaintexts longer than their ciphertexts),
every record that was handed to the logger renders.  The filter leaves it as it is,
for a channel always, and for an attempt just when the label, the remote address or
the subject that it names is quiet. -/
theorem own_records_pass [Sub T] [DecidableLE T] (reprStr : Str → Str) (lib : NoiseLibrary Conn Key)
    (env : Env) (setup : Setup T) {world : World Key T} (hworld : world.log = [])
    (events : List Resumption) {A : Aead Key} (hA : Shrinks A) {key : Key}
    {result : HandshakeResult Key} (hresult : result.sendCipher = .fresh key) {maxMessages : Int}
    {maxSeconds : T} {clock : ℕ → T} {policy : RekeyPolicy T}
    (hpolicy : RekeyPolicy.new maxMessages maxSeconds clock = .ok policy) (window : ReplayWindow)
    (ops : List SecureChannel.Call) :
    (∀ r ∈ (Coroutine.run lib env setup world events).world.log,
      (∃ message, (r.record reprStr).getMessage = .ok message) ∧
      (RedactingFilter.filter (r.record reprStr) = (true, r.record reprStr) ↔ QuietArgs r)) ∧
    ∀ r ∈ (Runs.after (SecureChannel.call A) (SecureChannel.init result window policy) ops).log,
      (∃ message, (r.record reprStr).getMessage = .ok message) ∧
      RedactingFilter.filter (r.record reprStr) = (true, r.record reprStr) := by
  have hrenders : ∀ r, OwnRecord r →
      ∃ message, (r.record reprStr).getMessage = .ok message := by
    intro r hown
    obtain ⟨message, hmessage, -⟩ := hown.getMessage reprStr
    exact ⟨message, hmessage⟩
  refine ⟨fun r hr => ?_, fun r hr => ?_⟩
  · have hown := Coroutine.own_run lib env setup (by simp [World.Own, hworld]) events r hr
    exact ⟨hrenders r hown, hown.filter_iff reprStr⟩
  · have htidy : ∀ ops (c : SecureChannel Key T), c.Tidy →
        (Runs.after (SecureChannel.call A) c ops).Tidy := by
      intro ops
      induction ops with
      | nil => exact fun c h => h
      | cons op ops ih => exact fun c h => ih _ (h.call hA op)
    obtain ⟨hown, hquiet⟩ := (htidy ops _ (SecureChannel.tidy_init hresult hpolicy window)).own r hr
    exact ⟨hrenders r hown, (hown.filter_iff reprStr).mpr hquiet⟩

/-- A server rejects a client that sends text, and a channel sends and closes. -/
theorem own_records_pass_rejected :
    let lib : NoiseLibrary (NoiseXX.State Nat) Nat := .xx examplePrimitives []
    let env := exampleEnv (fun _ => .ok .null) (SignatureScheme.stamp 64)
    let window : ReplayWindow := ⟨3, 7, -1, 0, by decide, rfl⟩
    let policy : RekeyPolicy ℤ := ⟨3, 900, fun _ => 0, 1, 0, 0, by decide, by decide⟩
    let setup : Setup ℤ := ⟨.serve [], ⟨true, none, none, false, none, none, none, false, some 10⟩,
      Str.ofString "10.0", List.replicate 32 3, List.replicate 32 4, [], 0, window, policy⟩
    let s := Coroutine.run lib env setup ⟨.empty, [], [], []⟩ [.message (.text []), .completed]
    let c := Runs.after (SecureChannel.call (Aead.spelled (· + 1)))
      (SecureChannel.init (examplePeer []).result window policy) [.encrypt (.bytesLike [1]), .closeFrame]
    s.world.log.length = 1 ∧ c.log.length = 2 ∧ ∀ r ∈ s.world.log ++ c.log,
      RedactingFilter.filter (r.record fun text => text) = (true, r.record fun text => text) := by
  intro lib env window policy setup s c
  have hshrinks : Shrinks (Aead.spelled (· + 1)) := by
    intro key nonce ad ciphertext plaintext hplaintext
    simp only [Aead.spelled] at hplaintext
    split_ifs at hplaintext
    rw [← Option.some.inj hplaintext]
    exact List.length_take_le' _ _
  have hnew : RekeyPolicy.new 3 (900 : ℤ) (fun _ => 0) = .ok policy := rfl
  obtain ⟨hattempt, hchannel⟩ := own_records_pass (fun text => text) lib env setup
    (show (⟨.empty, [], [], []⟩ : World Nat ℤ).log = [] from rfl) [.message (.text []), .completed]
    hshrinks (show (examplePeer []).result.sendCipher = .fresh _ from rfl) hnew window
    [.encrypt (.bytesLike [1]), .closeFrame]
  refine ⟨by decide +kernel, by decide +kernel, fun r hr => ?_⟩
  obtain hr | hr := List.mem_append.mp hr
  · have hlog : s.world.log = [warning "rejecting client %s: %s" [.str [], "ProtocolError"]] := by
      decide +kernel
    refine (hattempt r hr).2.mpr ?_
    rw [hlog, List.mem_singleton] at hr
    subst hr
    intro text htext
    have hempty : text = [] := by simpa [warning] using htext
    rw [hempty]
    exact quiet_nil
  · exact (hchannel r hr).2

end SecureWs
