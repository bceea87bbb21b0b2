import SecureWs.Lib.JsonDumps

/-!
# SecureWs.Lib.JsonIndent

`json.dumps(d, indent=2, sort_keys=True)` of an object of strings and lists of
strings, and the round trip through `json.loads`.

* `block` is what arrays and objects look like: one part on each line;
* `Scans` says that a scanner reads a value off the front of a text, and
  `scanItems_lines` and `scanMembers_lines` that a scanner of the parts reads
  the lines of a block;
* `loadsStr_dumpsIndent`: objects survive, with their keys sorted.
-/

namespace Python

namespace Json

def comma : CodePoint := CodePoint.ofChar ','

def space : CodePoint := CodePoint.ofChar ' '

/-! ## Writing -/

/-- A value that `dumpsIndent` writes. -/
inductive Field where
  | str (s : Str)
  | list (items : List Str)
  deriving DecidableEq, Repr

/-- The same value, as `loads` returns it. -/
def Field.toJson : Field → Json
  | str s => .str s
  | list items => .list (items.map .str)

abbrev Fields := List (Str × Field)

def Fields.toJson (entries : Fields) : Json :=
  .dict (entries.map fun entry => (entry.1, entry.2.toJson))

/-- A new line at a level, `"\n" + indent * level`. -/
def newlineIndent (level : Nat) : Str := newline :: List.replicate (2 * level) space

/-- An array or an object: its parts on lines of their own, one level deeper. -/
def block (opening closing : CodePoint) (level : Nat) (parts : List Str) : Str :=
  if parts = [] then [opening, closing]
  else opening :: newlineIndent (level + 1) ++
    List.intercalate (comma :: newlineIndent (level + 1)) parts ++ newlineIndent level ++ [closing]

/-- The text of a value at a level. -/
def Field.dump (level : Nat) : Field → Str
  | str s => quote s
  | list items => block (CodePoint.ofChar '[') (CodePoint.ofChar ']') level (items.map quote)

/-- A member: its key, a colon and the text of its value. -/
def memberText (key text : Str) : Str := quote key ++ CodePoint.ofChar ':' :: space :: text

/-- `sorted(d.items())`, for distinct keys. -/
def sortItems (entries : Fields) : Fields := entries.insertionSort fun a b => a.1 ≤ b.1

/-- `json.dumps(d, indent=2, sort_keys=True)`. -/
def dumpsIndent (entries : Fields) : Str :=
  block (CodePoint.ofChar '{') (CodePoint.ofChar '}') 0
    ((sortItems entries).map fun entry => memberText entry.1 (entry.2.dump 1))

/-- `json.loads(text)` of a `str`, which must not start with a byte order mark. -/
def loadsStr (limit : Nat) (text : Str) : Except LoadsError Json :=
  if text.head? = some (CodePoint.ofChar '\uFEFF') then .error .value
  else do
    let (value, rest) ← scanOnce limit (skipSpace text)
    if skipSpace rest = [] then return value else .error .value

/-! ## Scanning lines -/

/-- The text starts with neither white space nor a closing bracket or brace. -/
def Starts (text : Str) : Prop :=
  ∃ c s, text = c :: s ∧ isWhitespace c = false ∧ c ≠ CodePoint.ofChar ']' ∧
    c ≠ CodePoint.ofChar '}'

/-- The scanner reads `value` off any text that starts with `text`. -/
structure Scans (scan : Str → Except LoadsError (Json × Str)) (text : Str) (value : Json) :
    Prop where
  starts : Starts text
  scan_append : ∀ rest, scan (text ++ rest) = .ok (value, rest)

theorem skipSpace_of_not_isWhitespace {c : CodePoint} (h : isWhitespace c = false) (s : Str) :
    skipSpace (c :: s) = c :: s :=
  List.dropWhile_cons_of_neg (by simp [h])

/-- A new line and its indentation are white space. -/
theorem skipSpace_newlineIndent (level : Nat) (s : Str) :
    skipSpace (newlineIndent level ++ s) = skipSpace s := by
  have hall : ∀ c ∈ newlineIndent level, isWhitespace c = true := by
    simp only [newlineIndent, List.forall_mem_cons]
    refine ⟨by decide, fun c hc => ?_⟩
    rw [List.eq_of_mem_replicate hc]
    decide
  exact List.dropWhile_append_of_pos hall

namespace Starts

variable {text : Str}

theorem append (h : Starts text) (rest : Str) : Starts (text ++ rest) := by
  obtain ⟨c, s, rfl, hc⟩ := h
  exact ⟨c, s ++ rest, rfl, hc⟩

theorem skipSpace_eq (h : Starts text) : skipSpace text = text := by
  obtain ⟨c, s, rfl, hspace, -⟩ := h
  exact skipSpace_of_not_isWhitespace hspace s

theorem length_pos (h : Starts text) : 0 < text.length := by
  obtain ⟨c, s, rfl, -⟩ := h
  exact Nat.succ_pos _

/-- Joined parts start as the first of them does. -/
theorem intercalate {part : Str} (h : Starts part) (sep : Str) (parts : List Str) :
    Starts (List.intercalate sep (part :: parts)) := by
  cases parts with
  | nil => rwa [List.intercalate_singleton]
  | cons part' parts =>
      rw [List.intercalate_cons_cons, List.append_assoc]
      exact h.append _

end Starts

theorem starts_quote (s : Str) : Starts (quote s) :=
  ⟨quotationMark, _, rfl, by decide, by decide, by decide⟩

section

variable {scan : Str → Except LoadsError (Json × Str)}

theorem skipSpace_close {c : CodePoint} (h : isWhitespace c = false) (level : Nat) (rest : Str) :
    skipSpace (newlineIndent level ++ c :: rest) = c :: rest := by
  rw [skipSpace_newlineIndent, skipSpace_of_not_isWhitespace h]

/-- The last item of an array. -/
theorem scanItems_last {text : Str} {value : Json} (h : Scans scan text value) (fuel level : Nat)
    (rest : Str) :
    scanItems scan (fuel + 1) (text ++ (newlineIndent level ++ CodePoint.ofChar ']' :: rest)) =
      .ok ([value], rest) := by
  have hclose := skipSpace_close (c := CodePoint.ofChar ']') (by decide) level rest
  simp only [scanItems, h.scan_append, bind, Except.bind, hclose]
  rfl

/-- An item of an array before others. -/
theorem scanItems_more {text : Str} {value : Json} (h : Scans scan text value) {fuel : Nat}
    (level : Nat) {more : Str} (hskip : skipSpace more = more) {items : List Json} {rest : Str}
    (hmore : scanItems scan fuel more = .ok (items, rest)) :
    scanItems scan (fuel + 1) (text ++ comma :: (newlineIndent level ++ more)) =
      .ok (value :: items, rest) := by
  have hcomma : skipSpace (comma :: (newlineIndent level ++ more)) =
      comma :: (newlineIndent level ++ more) := skipSpace_of_not_isWhitespace (by decide) _
  simp only [scanItems, h.scan_append, bind, Except.bind, hcomma]
  rw [if_neg (by decide), if_pos (by decide), skipSpace_newlineIndent, hskip, hmore]
  rfl

/-- **The lines of an array.** -/
theorem scanItems_lines {parts : List (Str × Json)} (hne : parts ≠ [])
    (hparts : ∀ part ∈ parts, Scans scan part.1 part.2) (level level' : Nat) {fuel : Nat}
    (hfuel : parts.length ≤ fuel) (rest : Str) :
    scanItems scan fuel (List.intercalate (comma :: newlineIndent level) (parts.map Prod.fst) ++
        (newlineIndent level' ++ CodePoint.ofChar ']' :: rest)) =
      .ok (parts.map Prod.snd, rest) := by
  induction parts generalizing fuel with
  | nil => exact absurd rfl hne
  | cons part parts ih =>
      obtain ⟨hfirst, hrest⟩ := List.forall_mem_cons.mp hparts
      obtain ⟨fuel, rfl⟩ : ∃ n, fuel = n + 1 := ⟨fuel - 1, by simp at hfuel; omega⟩
      cases parts with
      | nil =>
          rw [List.map_singleton, List.intercalate_singleton]
          exact scanItems_last hfirst fuel level' rest
      | cons part' parts =>
          have hmore := ih (by simp) hrest (by simpa using hfuel)
          have hskip := (((hrest part' (by simp)).starts.intercalate (comma :: newlineIndent level)
            (parts.map Prod.fst)).append
              (newlineIndent level' ++ CodePoint.ofChar ']' :: rest)).skipSpace_eq
          rw [List.map_cons, List.map_cons, List.intercalate_cons_cons, ← List.map_cons,
            List.append_assoc, List.append_assoc, List.cons_append]
          exact scanItems_more hfirst level hskip hmore

/-- The last member of an object. -/
theorem scanMembers_last {key text : Str} {value : Json} (hkey : ∀ c ∈ key, isSurrogate c = false)
    (h : Scans scan text value) (fuel level : Nat) (rest : Str) :
    scanMembers scan (fuel + 1) (memberText key text ++
        (newlineIndent level ++ CodePoint.ofChar '}' :: rest)) = .ok ([(key, value)], rest) := by
  have hclose := skipSpace_close (c := CodePoint.ofChar '}') (by decide) level rest
  have hcons := scanMembers_cons hkey (h.starts.append _).skipSpace_eq
    (h.scan_append (newlineIndent level ++ CodePoint.ofChar '}' :: rest)) fuel
  rw [hclose] at hcons
  exact hcons

/-- A member of an object before others. -/
theorem scanMembers_more {key text : Str} {value : Json} (hkey : ∀ c ∈ key, isSurrogate c = false)
    (h : Scans scan text value) {fuel : Nat} (level : Nat) {more : Str}
    (hskip : skipSpace more = more) {members : List (Str × Json)} {rest : Str}
    (hmore : scanMembers scan fuel more = .ok (members, rest)) :
    scanMembers scan (fuel + 1) (memberText key text ++ comma :: (newlineIndent level ++ more)) =
      .ok ((key, value) :: members, rest) := by
  have hcomma : skipSpace (comma :: (newlineIndent level ++ more)) =
      comma :: (newlineIndent level ++ more) := skipSpace_of_not_isWhitespace (by decide) _
  have hcons := scanMembers_cons hkey (h.starts.append _).skipSpace_eq
    (h.scan_append (comma :: (newlineIndent level ++ more))) fuel
  rw [hcomma] at hcons
  simp only [skipSpace_newlineIndent, hskip, hmore] at hcons
  exact hcons

theorem starts_memberText (key text : Str) : Starts (memberText key text) :=
  (starts_quote key).append _

/-- **The lines of an object.** -/
theorem scanMembers_lines {members : List (Str × Str × Json)} (hne : members ≠ [])
    (hmembers : ∀ member ∈ members, (∀ c ∈ member.1, isSurrogate c = false) ∧
      Scans scan member.2.1 member.2.2) (level level' : Nat) {fuel : Nat}
    (hfuel : members.length ≤ fuel) (rest : Str) :
    scanMembers scan fuel (List.intercalate (comma :: newlineIndent level)
        (members.map fun member => memberText member.1 member.2.1) ++
        (newlineIndent level' ++ CodePoint.ofChar '}' :: rest)) =
      .ok (members.map fun member => (member.1, member.2.2), rest) := by
  induction members generalizing fuel with
  | nil => exact absurd rfl hne
  | cons member members ih =>
      obtain ⟨⟨hkey, hfirst⟩, hrest⟩ := List.forall_mem_cons.mp hmembers
      obtain ⟨fuel, rfl⟩ : ∃ n, fuel = n + 1 := ⟨fuel - 1, by simp at hfuel; omega⟩
      cases members with
      | nil =>
          rw [List.map_singleton, List.intercalate_singleton]
          exact scanMembers_last hkey hfirst fuel level' rest
      | cons member' members =>
          have hmore := ih (by simp) hrest (by simpa using hfuel)
          have hskip := (((starts_memberText member'.1 member'.2.1).intercalate
            (comma :: newlineIndent level)
            (members.map fun member => memberText member.1 member.2.1)).append
              (newlineIndent level' ++ CodePoint.ofChar '}' :: rest)).skipSpace_eq
          rw [List.map_cons, List.map_cons, List.intercalate_cons_cons, List.append_assoc,
            List.append_assoc, List.cons_append]
          exact scanMembers_more hkey hfirst level hskip hmore

/-- There are as many characters as parts at least. -/
theorem length_le_of_intercalate (sep : Str) {parts : List Str} (h : ∀ part ∈ parts, Starts part) :
    parts.length ≤ (List.intercalate sep parts).length := by
  induction parts with
  | nil => exact Nat.zero_le _
  | cons part parts ih =>
      obtain ⟨hfirst, hrest⟩ := List.forall_mem_cons.mp h
      cases parts with
      | nil =>
          rw [List.intercalate_singleton]
          exact hfirst.length_pos
      | cons part' parts =>
          have hle := ih hrest
          have hpos := hfirst.length_pos
          rw [List.intercalate_cons_cons, List.length_append, List.length_append, List.length_cons]
          omega

/-- A block with parts, behind its bracket: white space, and then a text that
starts with the first part and is long enough. -/
theorem block_append (opening closing : CodePoint) (level : Nat) {parts : List Str}
    (hne : parts ≠ []) (hparts : ∀ part ∈ parts, Starts part) (rest : Str) :
    ∃ s c t, block opening closing level parts ++ rest = opening :: s ∧ skipSpace s = c :: t ∧
      c :: t = List.intercalate (comma :: newlineIndent (level + 1)) parts ++
        (newlineIndent level ++ closing :: rest) ∧
      c ≠ CodePoint.ofChar ']' ∧ c ≠ CodePoint.ofChar '}' ∧ parts.length ≤ t.length + 2 := by
  cases parts with
  | nil => exact absurd rfl hne
  | cons part parts =>
      have hle := length_le_of_intercalate (comma :: newlineIndent (level + 1)) hparts
      have hstarts := ((hparts part (by simp)).intercalate (comma :: newlineIndent (level + 1))
        parts).append (newlineIndent level ++ closing :: rest)
      obtain ⟨c, t, htext, -, hbracket, hbrace⟩ := id hstarts
      have hskip := hstarts.skipSpace_eq
      have hlen := congrArg List.length htext
      rw [htext] at hskip
      rw [List.length_append, List.length_cons] at hlen
      refine ⟨newlineIndent (level + 1) ++ c :: t, c, t, ?_, ?_, htext.symm, hbracket, hbrace,
        by omega⟩
      · rw [block, if_neg (by simp), ← htext]
        simp
      · rw [skipSpace_newlineIndent, hskip]

/-- The scanner of an array reads a block. -/
theorem scanArray_block {parts : List (Str × Json)}
    (hparts : ∀ part ∈ parts, Scans scan part.1 part.2) (level : Nat) (rest : Str) :
    ∃ s, block (CodePoint.ofChar '[') (CodePoint.ofChar ']') level (parts.map Prod.fst) ++ rest =
        CodePoint.ofChar '[' :: s ∧ scanArray scan s = .ok (.list (parts.map Prod.snd), rest) := by
  by_cases hne : parts = []
  · subst hne
    exact ⟨CodePoint.ofChar ']' :: rest, rfl, rfl⟩
  · have hstarts : ∀ part ∈ parts.map Prod.fst, Starts part := by
      rw [List.forall_mem_map]
      exact fun part hmem => (hparts part hmem).starts
    obtain ⟨s, c, t, hblock, hskip, htext, hc, -, hlen⟩ := block_append
      (CodePoint.ofChar '[') (CodePoint.ofChar ']') level (mt List.map_eq_nil_iff.mp hne) hstarts
      rest
    rw [List.length_map] at hlen
    have hscan := scanItems_lines hne hparts (level + 1) level hlen rest
    rw [← htext] at hscan
    refine ⟨s, hblock, ?_⟩
    rw [scanArray, hskip]
    simp only [if_neg hc, hscan]
    rfl

/-- The scanner of an object reads a block. -/
theorem scanObject_block {members : List (Str × Str × Json)}
    (hmembers : ∀ member ∈ members, (∀ c ∈ member.1, isSurrogate c = false) ∧
      Scans scan member.2.1 member.2.2)
    (hkeys : (members.map Prod.fst).Nodup) (level : Nat) (rest : Str) :
    ∃ s, block (CodePoint.ofChar '{') (CodePoint.ofChar '}') level
          (members.map fun member => memberText member.1 member.2.1) ++ rest =
        CodePoint.ofChar '{' :: s ∧
      scanObject scan s = .ok (.dict (members.map fun member => (member.1, member.2.2)), rest) := by
  by_cases hne : members = []
  · subst hne
    exact ⟨CodePoint.ofChar '}' :: rest, rfl, rfl⟩
  · have hstarts : ∀ part ∈ members.map fun member => memberText member.1 member.2.1,
        Starts part := by
      rw [List.forall_mem_map]
      exact fun member _ => starts_memberText _ _
    obtain ⟨s, c, t, hblock, hskip, htext, -, hc, hlen⟩ :=
      block_append (CodePoint.ofChar '{') (CodePoint.ofChar '}') level
        (mt List.map_eq_nil_iff.mp hne) hstarts rest
    rw [List.length_map] at hlen
    have hscan := scanMembers_lines hne hmembers (level + 1) level hlen rest
    rw [← htext] at hscan
    have hnodup : ((members.map fun member => (member.1, member.2.2)).map Prod.fst).Nodup := by
      rwa [List.map_map]
    refine ⟨s, hblock, ?_⟩
    rw [scanObject, hskip]
    simp only [if_neg hc, hscan]
    show Except.ok (Json.dict (List.foldl _ [] _), rest) = _
    rw [foldl_setItem hnodup]

end

/-! ## Objects survive -/

/-- Strings without surrogates. -/
def Field.Plain : Field → Prop
  | str s => ∀ c ∈ s, isSurrogate c = false
  | list items => ∀ item ∈ items, ∀ c ∈ item, isSurrogate c = false

/-- The strings of an object, its keys among them, have no surrogates. -/
def Fields.Plain (entries : Fields) : Prop :=
  ∀ entry ∈ entries, (∀ c ∈ entry.1, isSurrogate c = false) ∧ entry.2.Plain

theorem scans_quote (limit : Nat) {s : Str} (h : ∀ c ∈ s, isSurrogate c = false) :
    Scans (scanOnce limit) (quote s) (.str s) :=
  ⟨starts_quote s, scanOnce_quote limit h⟩

theorem block_eq_cons (opening closing : CodePoint) (level : Nat) (parts : List Str) :
    ∃ s, block opening closing level parts = opening :: s := by
  unfold block
  split_ifs
  · exact ⟨_, rfl⟩
  · exact ⟨_, rfl⟩

theorem starts_block {opening : CodePoint} (hspace : isWhitespace opening = false)
    (hbracket : opening ≠ CodePoint.ofChar ']') (hbrace : opening ≠ CodePoint.ofChar '}')
    (closing : CodePoint) (level : Nat) (parts : List Str) :
    Starts (block opening closing level parts) := by
  obtain ⟨s, hs⟩ := block_eq_cons opening closing level parts
  exact ⟨opening, s, hs, hspace, hbracket, hbrace⟩

/-- A value survives; an array takes one level of recursion. -/
theorem scans_dump {limit : Nat} (hlimit : 1 ≤ limit) {value : Field} (h : value.Plain)
    (level : Nat) : Scans (scanOnce limit) (value.dump level) value.toJson := by
  obtain ⟨limit, rfl⟩ : ∃ n, limit = n + 1 := ⟨limit - 1, by omega⟩
  cases value with
  | str s => exact scans_quote _ h
  | list items =>
      refine ⟨starts_block (by decide) (by decide) (by decide) _ _ _, fun rest => ?_⟩
      have hparts : ∀ part ∈ items.map fun item => (quote item, Json.str item),
          Scans (scanOnce limit) part.1 part.2 := by
        rw [List.forall_mem_map]
        exact fun item hmem => scans_quote limit (h item hmem)
      obtain ⟨s, hblock, hscan⟩ := scanArray_block hparts level rest
      rw [List.map_map] at hblock hscan
      show scanOnce (limit + 1) (block _ _ level (items.map quote) ++ rest) = _
      rw [show items.map quote =
          items.map (Prod.fst ∘ fun item => (quote item, Json.str item)) from rfl, hblock, scanOnce,
        scanValue, if_neg (by decide), if_neg (by decide), if_pos rfl]
      exact hscan

theorem perm_sortItems (entries : Fields) : (sortItems entries).Perm entries :=
  List.perm_insertionSort _ _

theorem nodup_sortItems {entries : Fields} (h : (entries.map Prod.fst).Nodup) :
    ((sortItems entries).map Prod.fst).Nodup :=
  (((perm_sortItems entries).map Prod.fst).nodup_iff).mpr h

/-- The text of an object does not depend on the order of its members. -/
theorem dumpsIndent_eq_of_perm {entries entries' : Fields} (h : entries.Perm entries')
    (hkeys : (entries.map Prod.fst).Nodup) : dumpsIndent entries = dumpsIndent entries' := by
  have hsorted : ∀ entries : Fields, (sortItems entries).Pairwise fun a b => a.1 ≤ b.1 :=
    fun entries => List.pairwise_insertionSort _ entries
  have hperm := ((perm_sortItems entries).trans h).trans (perm_sortItems entries').symm
  have heq : sortItems entries = sortItems entries' := by
    refine hperm.eq_of_pairwise (fun a b ha hb hab hba => ?_) (hsorted _) (hsorted _)
    exact List.inj_on_of_nodup_map (nodup_sortItems hkeys) ha (hperm.mem_iff.mpr hb)
      (le_antisymm hab hba)
  rw [dumpsIndent, dumpsIndent, heq]

/-- **Objects survive**, with their keys sorted. -/
theorem scanOnce_dumpsIndent {limit : Nat} (hlimit : 2 ≤ limit) {entries : Fields}
    (hkeys : (entries.map Prod.fst).Nodup) (hplain : entries.Plain) (rest : Str) :
    scanOnce limit (dumpsIndent entries ++ rest) = .ok ((sortItems entries).toJson, rest) := by
  obtain ⟨limit, rfl⟩ : ∃ n, limit = n + 1 := ⟨limit - 1, by omega⟩
  have hperm := perm_sortItems entries
  have hmembers : ∀ member ∈ (sortItems entries).map fun entry =>
      (entry.1, entry.2.dump 1, entry.2.toJson), (∀ c ∈ member.1, isSurrogate c = false) ∧
        Scans (scanOnce limit) member.2.1 member.2.2 := by
    rw [List.forall_mem_map]
    intro entry hmem
    obtain ⟨hkey, hvalue⟩ := hplain entry (hperm.mem_iff.mp hmem)
    exact ⟨hkey, scans_dump (by omega) hvalue 1⟩
  have hnodup : (((sortItems entries).map fun entry =>
      (entry.1, entry.2.dump 1, entry.2.toJson)).map Prod.fst).Nodup := by
    rw [List.map_map]
    exact nodup_sortItems hkeys
  obtain ⟨s, hblock, hscan⟩ := scanObject_block hmembers hnodup 0 rest
  rw [List.map_map] at hblock hscan
  rw [dumpsIndent]
  refine (congrArg (scanOnce (limit + 1)) hblock).trans ?_
  rw [scanOnce, scanValue, if_neg (by decide), if_pos rfl]
  exact hscan

/-- **The round trip.**  What `dumpsIndent` writes is read back by `loads` as
the dictionary with its keys sorted. -/
theorem loadsStr_dumpsIndent {limit : Nat} (hlimit : 2 ≤ limit) {entries : Fields}
    (hkeys : (entries.map Prod.fst).Nodup) (hplain : entries.Plain) :
    loadsStr limit (dumpsIndent entries) = .ok (sortItems entries).toJson := by
  have hscan := scanOnce_dumpsIndent hlimit hkeys hplain []
  have hstarts : Starts (dumpsIndent entries) :=
    starts_block (by decide) (by decide) (by decide) _ _ _
  have hmark : (dumpsIndent entries).head? ≠ some (CodePoint.ofChar '\uFEFF') := by
    obtain ⟨s, hs⟩ := block_eq_cons (CodePoint.ofChar '{') (CodePoint.ofChar '}') 0
      ((sortItems entries).map fun entry => memberText entry.1 (entry.2.dump 1))
    rw [dumpsIndent, hs, List.head?_cons, ne_eq, Option.some.injEq]
    decide
  rw [List.append_nil] at hscan
  rw [loadsStr, if_neg hmark, hstarts.skipSpace_eq, hscan]
  rfl

/-! ## The characters of the text -/

theorem forall_mem_intercalate {P : CodePoint → Prop} {sep : Str} (hsep : ∀ c ∈ sep, P c)
    {parts : List Str} (h : ∀ part ∈ parts, ∀ c ∈ part, P c) :
    ∀ c ∈ List.intercalate sep parts, P c := by
  induction parts with
  | nil => simp
  | cons part parts ih =>
      obtain ⟨hfirst, hrest⟩ := List.forall_mem_cons.mp h
      cases parts with
      | nil => rwa [List.intercalate_singleton]
      | cons part' parts =>
          simp only [List.intercalate_cons_cons, List.forall_mem_append]
          exact ⟨⟨hfirst, hsep⟩, ih hrest⟩

/-- A printable character, or the end of a line. -/
def OnLine (c : CodePoint) : Prop := isPrintable c = true ∨ c = newline

theorem onLine_newlineIndent (level : Nat) : ∀ c ∈ newlineIndent level, OnLine c := by
  simp only [newlineIndent, List.forall_mem_cons]
  refine ⟨.inr rfl, fun c hc => .inl ?_⟩
  rw [List.eq_of_mem_replicate hc]
  decide

theorem onLine_block {opening closing : CodePoint} (hopening : OnLine opening)
    (hclosing : OnLine closing) (level : Nat) {parts : List Str}
    (h : ∀ part ∈ parts, ∀ c ∈ part, OnLine c) :
    ∀ c ∈ block opening closing level parts, OnLine c := by
  have hcomma : OnLine comma := .inl (by decide)
  unfold block
  split_ifs
  · simp only [List.forall_mem_cons]
    exact ⟨hopening, hclosing, by simp⟩
  · simp only [List.forall_mem_append, List.forall_mem_cons, List.cons_append]
    refine ⟨hopening, ⟨⟨onLine_newlineIndent _, forall_mem_intercalate ?_ h⟩,
      onLine_newlineIndent _⟩, hclosing, by simp⟩
    rw [List.forall_mem_cons]
    exact ⟨hcomma, onLine_newlineIndent _⟩

theorem onLine_quote (s : Str) : ∀ c ∈ quote s, OnLine c := fun c hc =>
  .inl (isPrintable_quote s c hc)

theorem onLine_dump (level : Nat) (value : Field) : ∀ c ∈ value.dump level, OnLine c := by
  cases value with
  | str s => exact onLine_quote s
  | list items =>
      refine onLine_block (.inl (by decide)) (.inl (by decide)) level ?_
      rw [List.forall_mem_map]
      exact fun item _ => onLine_quote item

/-- The text consists of lines of printable characters. -/
theorem onLine_dumpsIndent (entries : Fields) : ∀ c ∈ dumpsIndent entries, OnLine c := by
  refine onLine_block (.inl (by decide)) (.inl (by decide)) 0 ?_
  rw [List.forall_mem_map]
  intro entry _
  simp only [memberText, List.forall_mem_append, List.forall_mem_cons]
  exact ⟨onLine_quote _, .inl (by decide), .inl (by decide), onLine_dump 1 _⟩

end Json

end Python
