import SecureWs.Lib.JsonDumps

/-!
# SecureWs.Lib.TextFile

Text files in UTF-8, as `write_text` writes them and `read_text` reads them:
with the line separator of the platform on the way out, and universal newlines
on the way in.  `bytesText_textBytes` is the round trip of ASCII text without
carriage returns, and `bytesText_take` what is read of a file that is cut short.
-/

namespace Python

open Json

def carriageReturn : CodePoint := CodePoint.ofChar '\r'

/-- `os.linesep`. -/
inductive Linesep where
  | lf
  | crlf
  deriving DecidableEq, Repr

def Linesep.text : Linesep → Str
  | lf => [newline]
  | crlf => [carriageReturn, newline]

/-- The text with the line separator of the platform. -/
def Linesep.translate (linesep : Linesep) (text : Str) : Str :=
  text.flatMap fun c => if c = newline then linesep.text else [c]

/-- The text with every line separator turned into a newline. -/
def universalNewlines : Str → Str
  | [] => []
  | c :: s =>
      if c = carriageReturn then match s with
        | [] => [newline]
        | d :: t =>
            if d = newline then newline :: universalNewlines t
            else newline :: universalNewlines (d :: t)
      else c :: universalNewlines s

/-- `b.decode("utf-8")`: no surrogates. -/
def decodeUtf8Strict (b : Bytes) : Option Str :=
  (decodeUtf8 b).filter fun s => s.all fun c => !isSurrogate c

/-- The bytes that `path.write_text(text, "utf-8")` writes; `none` is its
`UnicodeEncodeError`. -/
def textBytes (linesep : Linesep) (text : Str) : Option Bytes := (linesep.translate text).encode

/-- What `path.read_text("utf-8")` makes of the bytes; `none` is its
`UnicodeDecodeError`. -/
def bytesText (b : Bytes) : Option Str := (decodeUtf8Strict b).map universalNewlines

theorem universalNewlines_cons {c : CodePoint} (h : c ≠ carriageReturn) (s : Str) :
    universalNewlines (c :: s) = c :: universalNewlines s := by
  rw [universalNewlines.eq_def]
  exact if_neg h

theorem universalNewlines_crlf (s : Str) :
    universalNewlines (carriageReturn :: newline :: s) = newline :: universalNewlines s := by
  rw [universalNewlines.eq_def]
  rfl

theorem Linesep.translate_cons (linesep : Linesep) (c : CodePoint) (text : Str) :
    linesep.translate (c :: text) =
      (if c = newline then linesep.text else [c]) ++ linesep.translate text := rfl

/-- Line separators survive on either platform. -/
theorem universalNewlines_translate (linesep : Linesep) {text : Str} (h : carriageReturn ∉ text) :
    universalNewlines (linesep.translate text) = text := by
  induction text with
  | nil => rfl
  | cons c text ih =>
      obtain ⟨hc, htext⟩ := not_or.mp (mt List.mem_cons.mpr h)
      rw [Linesep.translate_cons]
      by_cases hline : c = newline
      · subst hline
        rw [if_pos rfl]
        cases linesep with
        | lf =>
            show universalNewlines (newline :: Linesep.lf.translate text) = _
            rw [universalNewlines_cons (by decide), ih htext]
        | crlf =>
            show universalNewlines (carriageReturn :: newline :: Linesep.crlf.translate text) = _
            rw [universalNewlines_crlf, ih htext]
      · rw [if_neg hline]
        show universalNewlines (c :: linesep.translate text) = _
        rw [universalNewlines_cons (Ne.symm hc), ih htext]

theorem isAscii_linesep (linesep : Linesep) : ∀ c ∈ linesep.text, isAscii c = true := by
  have hnewline : isAscii newline = true := by decide
  have hreturn : isAscii carriageReturn = true := by decide
  cases linesep with
  | lf => simp [Linesep.text, hnewline]
  | crlf => simp [Linesep.text, hnewline, hreturn]

theorem isAscii_translate (linesep : Linesep) {text : Str} (h : ∀ c ∈ text, isAscii c = true) :
    ∀ c ∈ linesep.translate text, isAscii c = true := by
  rw [Linesep.translate, List.forall_mem_flatMap]
  intro c hc
  split_ifs
  · exact isAscii_linesep linesep
  · simpa using h c hc

/-- **Text survives**: ASCII, without carriage returns. -/
theorem bytesText_textBytes (linesep : Linesep) {text : Str} (hascii : ∀ c ∈ text, isAscii c = true)
    (hreturn : carriageReturn ∉ text) :
    ∃ data, textBytes linesep text = some data ∧ bytesText data = some text := by
  have htranslate := isAscii_translate linesep hascii
  refine ⟨_, encode_ascii htranslate, ?_⟩
  have hsurrogates : (linesep.translate text).all (fun c => !isSurrogate c) = true := by
    rw [List.all_eq_true]
    intro c hc
    have hc := htranslate c hc
    simp only [isAscii, decide_eq_true_eq] at hc
    simp only [isSurrogate, Bool.not_eq_true', decide_eq_false_iff_not]
    omega
  rw [bytesText, decodeUtf8Strict, decodeUtf8_ascii htranslate, Option.filter_some,
    if_pos hsurrogates, Option.map_some, universalNewlines_translate linesep hreturn]

/-! ## Text that is cut short -/

/-- Of a text that is cut short in its file, the beginning is read; and less than
the whole of it, unless what is missing is half of a line separator. -/
theorem universalNewlines_torn (linesep : Linesep) {text torn : Str} (hreturn : carriageReturn ∉ text)
    (h : torn <+: linesep.translate text) :
    universalNewlines torn <+: text ∧
      (torn ≠ linesep.translate text → text.getLast? ≠ some newline →
        universalNewlines torn ≠ text) := by
  induction text generalizing torn with
  | nil =>
      obtain rfl := List.prefix_nil.mp h
      exact ⟨List.prefix_refl _, fun hne => absurd rfl hne⟩
  | cons c text ih =>
      obtain ⟨hc, htext⟩ := not_or.mp (mt List.mem_cons.mpr hreturn)
      rw [Linesep.translate_cons] at h ⊢
      -- a character that is written as it is
      have hplain : ∀ {torn : Str}, torn <+: c :: linesep.translate text →
          universalNewlines torn <+: c :: text ∧
            (torn ≠ c :: linesep.translate text → (c :: text).getLast? ≠ some newline →
              universalNewlines torn ≠ c :: text) := by
        intro torn htorn
        cases torn with
        | nil => exact ⟨List.nil_prefix, fun _ _ => (List.cons_ne_nil c text).symm⟩
        | cons d torn =>
            obtain ⟨rfl, hrest⟩ := List.cons_prefix_cons.mp htorn
            obtain ⟨hshort, hstrict⟩ := ih htext hrest
            rw [universalNewlines_cons (Ne.symm hc)]
            refine ⟨List.cons_prefix_cons.mpr ⟨rfl, hshort⟩, fun hne hlast heq => ?_⟩
            obtain ⟨-, heq⟩ := List.cons.inj heq
            refine hstrict (fun hwhole => hne (by rw [hwhole])) (fun hnewline => hlast ?_) heq
            rw [List.getLast?_cons, hnewline]
            rfl
      by_cases hline : c = newline
      · subst hline
        rw [if_pos rfl] at h ⊢
        cases linesep with
        | lf => exact hplain h
        | crlf =>
            cases torn with
            | nil => exact ⟨List.nil_prefix, fun _ _ => (List.cons_ne_nil newline text).symm⟩
            | cons d torn =>
                obtain ⟨rfl, hrest⟩ := List.cons_prefix_cons.mp h
                cases torn with
                | nil =>
                    refine ⟨List.cons_prefix_cons.mpr ⟨rfl, List.nil_prefix⟩, ?_⟩
                    intro _ hlast heq
                    obtain ⟨-, rfl⟩ := List.cons.inj heq
                    exact hlast rfl
                | cons e torn =>
                    obtain ⟨rfl, hrest'⟩ := List.cons_prefix_cons.mp hrest
                    obtain ⟨hshort, hstrict⟩ := ih htext hrest'
                    rw [universalNewlines_crlf]
                    refine ⟨List.cons_prefix_cons.mpr ⟨rfl, hshort⟩, fun hne hlast heq => ?_⟩
                    obtain ⟨-, heq⟩ := List.cons.inj heq
                    refine hstrict (fun hwhole => hne (by rw [hwhole]; rfl))
                      (fun hnewline => hlast ?_) heq
                    rw [List.getLast?_cons, hnewline]
                    rfl
      · rw [if_neg hline] at h ⊢
        exact hplain h

/-- **Text that is cut short**: of the bytes of ASCII text, without carriage
returns and without a newline at its end, the first `count` are read as the
beginning of it. -/
theorem bytesText_take (linesep : Linesep) {text : Str} {data : Bytes}
    (hascii : ∀ c ∈ text, isAscii c = true) (hreturn : carriageReturn ∉ text)
    (hlast : text.getLast? ≠ some newline) (hdata : textBytes linesep text = some data)
    (count : Nat) :
    ∃ torn, bytesText (data.take count) = some torn ∧ torn <+: text ∧
      (count < data.length → torn ≠ text) := by
  have htranslate := isAscii_translate linesep hascii
  have hencode := encode_ascii htranslate
  obtain rfl := Option.some.inj (hdata.symm.trans hencode)
  have htake : ∀ c ∈ (linesep.translate text).take count, isAscii c = true := fun c hc =>
    htranslate c (List.mem_of_mem_take hc)
  have hsurrogates : ((linesep.translate text).take count).all (fun c => !isSurrogate c) = true := by
    rw [List.all_eq_true]
    intro c hc
    have hc := htake c hc
    simp only [isAscii, decide_eq_true_eq] at hc
    simp only [isSurrogate, Bool.not_eq_true', decide_eq_false_iff_not]
    omega
  obtain ⟨hshort, hstrict⟩ := universalNewlines_torn linesep hreturn (List.take_prefix count _)
  refine ⟨_, ?_, hshort, fun hcount => hstrict (fun hwhole => ?_) hlast⟩
  · rw [← List.map_take, bytesText, decodeUtf8Strict, decodeUtf8_ascii htake, Option.filter_some,
      if_pos hsurrogates, Option.map_some]
  · rw [List.length_map] at hcount
    rw [List.take_eq_self_iff] at hwhole
    omega

end Python
