import SecureWs.Certificates
import SecureWs.Identity
import SecureWs.Lib.Runs
import SecureWs.Lib.JsonIndent
import SecureWs.Lib.TextFile

/-!
# SecureWs.Persistence

How the trust stores are written and read back: `RevocationList` of `ca.py`
and `KnownPeers` of `identity.py`.

* `loadDict_saveDict`: through a file, a dictionary comes back with its keys
  sorted;
* `RevocationList.fromDict_toDict` and `KnownPeers.fromDict_of_perm`: a store
  with keys of the right length comes back from its dictionary;
* `trust_stores_survive`: every store that a program can reach is persisted.
-/

namespace SecureWs

open Python

/-! ## Files -/

/-- The contents of the files that exist. -/
abbrev Files (Path : Type) := Path → Option Bytes

section

variable {Path : Type} [DecidableEq Path]

/-- `path.write_text(text, "utf-8")`, which truncates the file first. -/
def writeText (linesep : Linesep) (path : Path) (text : Str) : Imp PyError (Files Path) Unit := do
  modify fun files => Function.update files path (some [])
  match textBytes linesep text with
  | some data => modify fun files => Function.update files path (some data)
  | none => throw (.valueError [])

/-- `path.read_text("utf-8")` of a file with these contents. -/
def readText (data : Bytes) : Except PyError Str :=
  match bytesText data with
  | some text => .ok text
  | none => .error (.valueError [])

/-- The exception of `json.loads`. -/
def loadsError : Json.LoadsError → PyError
  | .value => .valueError []
  | .recursion => .recursionError

/-- `json.loads(text)`, with `limit` levels of recursion. -/
def loadsText (limit : Nat) (text : Str) : Except PyError Json :=
  (Json.loadsStr limit text).mapError loadsError

/-- The `save` of a store with this dictionary. -/
def saveDict (linesep : Linesep) (path : Path) (data : Json.Fields) :
    Imp PyError (Files Path) Unit :=
  writeText linesep path (Json.dumpsIndent data)

/-- The `load` of a store: `new` where there is no file. -/
def loadDict {α : Type} (limit : Nat) (new : Except PyError α) (fromDict : Json → Except PyError α)
    (files : Files Path) (path : Path) : Except PyError α :=
  match files path with
  | none => new
  | some data => do
      let text ← readText data
      fromDict (← loadsText limit text)

/-- `write_text` replaces the file by the bytes of the text. -/
theorem run_writeText {linesep : Linesep} {text : Str} {data : Bytes}
    (h : textBytes linesep text = some data) (path : Path) (files : Files Path) :
    (writeText linesep path text).run files = (.ok (), Function.update files path (some data)) := by
  unfold writeText
  rw [Imp.run_bind_of_ok (Imp.run_modify _ files), h, Imp.run_modify, Function.update_idem]

/-- The text of a dictionary has lines of printable characters, which survive
a file. -/
theorem bytesText_dumpsIndent (linesep : Linesep) (data : Json.Fields) :
    ∃ bytes, textBytes linesep (Json.dumpsIndent data) = some bytes ∧
      bytesText bytes = some (Json.dumpsIndent data) := by
  have hline := Json.onLine_dumpsIndent data
  refine bytesText_textBytes linesep (fun c hc => ?_) (fun hreturn => ?_)
  · obtain hprintable | rfl := hline c hc
    · exact Json.isAscii_of_isPrintable hprintable
    · decide
  · obtain hprintable | hnewline := hline _ hreturn
    · exact absurd hprintable (by decide)
    · exact absurd hnewline (by decide)

/-- **Through a file**, a dictionary comes back with its keys sorted, and no
other file changes. -/
theorem loadDict_saveDict {α : Type} {limit : Nat} (hlimit : 2 ≤ limit) {data : Json.Fields}
    (hkeys : (data.map Prod.fst).Nodup) (hplain : data.Plain) (linesep : Linesep) (path : Path)
    (files : Files Path) (new : Except PyError α) (fromDict : Json → Except PyError α) :
    ∃ files', (saveDict linesep path data).run files = (.ok (), files') ∧
      loadDict limit new fromDict files' path = fromDict (Json.sortItems data).toJson ∧
      ∀ other, other ≠ path → files' other = files other := by
  obtain ⟨bytes, hbytes, htext⟩ := bytesText_dumpsIndent linesep data
  refine ⟨_, run_writeText hbytes path files, ?_, fun other hne => Function.update_of_ne hne _ _⟩
  have hread : readText bytes = .ok (Json.dumpsIndent data) := by rw [readText, htext]
  have hloads : loadsText limit (Json.dumpsIndent data) = .ok (Json.sortItems data).toJson := by
    rw [loadsText, Json.loadsStr_dumpsIndent hlimit hkeys hplain]
    rfl
  rw [loadDict, Function.update_self]
  show (readText bytes >>= fun text => loadsText limit text >>= fromDict) = _
  rw [hread]
  show (loadsText limit (Json.dumpsIndent data) >>= fromDict) = _
  rw [hloads]
  rfl

end

/-! ## Iteration -/

/-- The items of `for item in value`. -/
def iterate : Json → Except PyError (List Json)
  | .list items => .ok items
  | .str s => .ok (s.map fun c => .str [c])
  | .dict entries => .ok (entries.map fun entry => .str entry.1)
  | _ => .error (.typeError [])

/-! ## Revocation lists -/

namespace RevocationList

def revokeKey (publicKey : Bytes) : Imp PyError RevocationList Unit := do
  Imp.ofExcept (validatePublicKey publicKey)
  modify fun self => { self with keys := insert publicKey self.keys }

def revokeSubject (subject : Str) : Imp PyError RevocationList Unit :=
  modify fun self => { self with subjects := insert subject self.subjects }

/-- The body of `__init__`. -/
def init (revokedKeys : List Bytes) (revokedSubjects : List Str) :
    Imp PyError RevocationList Unit := do
  set (RevocationList.mk ∅ ∅)
  forM revokedKeys revokeKey
  forM revokedSubjects revokeSubject

def new (revokedKeys : List Bytes) (revokedSubjects : List Str) : Except PyError RevocationList :=
  let (result, self) := (init revokedKeys revokedSubjects).run ⟨∅, ∅⟩
  result.map fun _ => self

/-- The dictionary of `to_dict`, when the two sets list their members in these
orders. -/
def dictOf (keys : List Bytes) (subjects : List Str) : Json.Fields :=
  [(Str.ofString "keys", .list (sorted (keys.map hex))),
    (Str.ofString "subjects", .list (sorted subjects))]

/-- The order in which a set is listed does not matter: the lists are sorted. -/
theorem dictOf_eq_of_perm {keys keys' : List Bytes} {subjects subjects' : List Str}
    (hkeys : keys.Perm keys') (hsubjects : subjects.Perm subjects') :
    dictOf keys subjects = dictOf keys' subjects' := by
  rw [dictOf, dictOf, sorted_eq_of_perm (hkeys.map hex), sorted_eq_of_perm hsubjects]

/-- `revocation.to_dict()`: in whatever order the sets list their members. -/
def toDict (self : RevocationList) : Json.Fields :=
  Quotient.liftOn₂ self.keys.val self.subjects.val dictOf fun _ _ _ _ => dictOf_eq_of_perm

/-- `RevocationList.from_dict(data)`; `revoke_subject` takes the `str` of
every subject. -/
def fromDict (env : Env) : Json → Except PyError RevocationList
  | .dict data => do
      let hexes ← iterate ((Json.lookup (Str.ofString "keys") data).getD (.list []))
      let keys ← hexes.mapM bytesFromHex
      let subjects ← iterate ((Json.lookup (Str.ofString "subjects") data).getD (.list []))
      new keys (subjects.map env.str)
  | _ => throw (.attributeError [])

/-- `revocation.save(path)`. -/
def save {Path : Type} [DecidableEq Path] (self : RevocationList) (linesep : Linesep)
    (path : Path) : Imp PyError (Files Path) Unit :=
  saveDict linesep path self.toDict

/-- `RevocationList.load(path)`. -/
def load {Path : Type} (env : Env) (limit : Nat) (files : Files Path) (path : Path) :
    Except PyError RevocationList :=
  loadDict limit (new [] []) (fromDict env) files path

/-- A key of the right length is revoked. -/
theorem run_revokeKey {publicKey : Bytes} (h : publicKey.length = X25519_KEY_LEN)
    (self : RevocationList) :
    (revokeKey publicKey).run self =
      (.ok (), { self with keys := insert publicKey self.keys }) := by
  have hkey : validatePublicKey publicKey = .ok () := validatePublicKey_eq_ok_iff.mpr h
  unfold revokeKey
  rw [hkey]
  rfl

/-- A key of the wrong length is not revoked. -/
theorem run_revokeKey_of_length_ne {publicKey : Bytes} (h : publicKey.length ≠ X25519_KEY_LEN)
    (self : RevocationList) :
    ∃ exc, (revokeKey publicKey).run self = (.error exc, self) := by
  unfold revokeKey validatePublicKey
  rw [raiseIf, if_pos h]
  exact ⟨_, rfl⟩

/-- The first loop of `__init__`. -/
theorem run_revokeKeys_eq_ok_iff {keys : List Bytes} (self : RevocationList)
    {self' : RevocationList} :
    (forM keys revokeKey).run self = (.ok (), self') ↔
      (∀ key ∈ keys, key.length = X25519_KEY_LEN) ∧
        self' = { self with keys := self.keys ∪ keys.toFinset } := by
  induction keys generalizing self with
  | nil => simp [eq_comm]
  | cons key keys ih =>
      rw [List.forM_cons, List.forall_mem_cons]
      by_cases hkey : key.length = X25519_KEY_LEN
      · rw [Imp.run_bind_of_ok (run_revokeKey hkey self), ih _]
        simp [hkey]
      · obtain ⟨exc, hrun⟩ := run_revokeKey_of_length_ne hkey self
        rw [Imp.run_bind_of_error hrun]
        simp [hkey]

/-- The second loop of `__init__`. -/
theorem run_revokeSubjects (subjects : List Str) (self : RevocationList) :
    (forM subjects revokeSubject).run self =
      (.ok (), { self with subjects := self.subjects ∪ subjects.toFinset }) := by
  induction subjects generalizing self with
  | nil => simp
  | cons subject subjects ih =>
      rw [List.forM_cons, revokeSubject, Imp.run_bind_of_ok (Imp.run_modify _ self), ih]
      simp

/-- The constructor refuses keys of the wrong length, and nothing else. -/
theorem new_eq_ok_iff {keys : List Bytes} {subjects : List Str} {self : RevocationList} :
    new keys subjects = .ok self ↔ (∀ key ∈ keys, key.length = X25519_KEY_LEN) ∧
      self = ⟨keys.toFinset, subjects.toFinset⟩ := by
  have hrun : (init keys subjects).run ⟨∅, ∅⟩ =
      (forM keys revokeKey >>= fun _ => forM subjects revokeSubject).run ⟨∅, ∅⟩ := rfl
  rw [new, hrun]
  cases hkeys : (forM keys revokeKey).run ⟨∅, ∅⟩ with
  | mk result reached => cases result with
    | error exc =>
        have hno : ¬∀ key ∈ keys, key.length = X25519_KEY_LEN := fun h => by
          have hok := (run_revokeKeys_eq_ok_iff ⟨∅, ∅⟩).mpr ⟨h, rfl⟩
          rw [hkeys] at hok
          exact absurd (Prod.mk.inj hok).1 (by simp)
        rw [Imp.run_bind_of_error hkeys]
        simp [hno, Except.map]
    | ok u =>
        obtain ⟨hlength, rfl⟩ := (run_revokeKeys_eq_ok_iff _).mp hkeys
        rw [Imp.run_bind_of_ok hkeys, run_revokeSubjects]
        simp only [Except.map, Finset.empty_union, Except.ok.injEq]
        rw [eq_comm]
        exact (and_iff_right hlength).symm

/-- The order in which the sets list their members does not matter. -/
theorem toDict_eq_dictOf {self : RevocationList} {keys : List Bytes} {subjects : List Str}
    (hkeys : (keys : Multiset Bytes) = self.keys.val)
    (hsubjects : (subjects : Multiset Str) = self.subjects.val) :
    self.toDict = dictOf keys subjects := by
  rw [toDict, ← hkeys, ← hsubjects]
  rfl

theorem toDict_eq_dictOf_toList (self : RevocationList) :
    self.toDict = dictOf self.keys.toList self.subjects.toList :=
  toDict_eq_dictOf (Finset.coe_toList _) (Finset.coe_toList _)

/-- The two entries have different names. -/
theorem nodup_toDict (self : RevocationList) : (self.toDict.map Prod.fst).Nodup := by
  rw [toDict_eq_dictOf_toList]
  show List.Nodup [Str.ofString "keys", Str.ofString "subjects"]
  decide

/-- They are in the order of `sort_keys=True` already. -/
theorem sortItems_toDict (self : RevocationList) : Json.sortItems self.toDict = self.toDict := by
  rw [toDict_eq_dictOf_toList]
  rfl

/-- The list is read back from the members of its sets, in any order. -/
theorem fromDict_dictOf (env : Env) {keys : List Bytes} {subjects : List Str}
    (hkeys : ∀ key ∈ keys, key.length = X25519_KEY_LEN) :
    fromDict env (dictOf keys subjects).toJson = .ok ⟨keys.toFinset, subjects.toFinset⟩ := by
  obtain ⟨keys', hhex, hperm⟩ := exists_perm_map hex_injective (perm_sorted (keys.map hex))
  have hread : ((sorted (keys.map hex)).map Json.str).mapM bytesFromHex = .ok keys' := by
    rw [← hhex, List.map_map]
    exact mapM_eq_ok_of_forall fun key _ => bytesFromHex_hex key
  have hstr : ((sorted subjects).map Json.str).map env.str = sorted subjects := by
    rw [List.map_map]
    exact List.map_id _
  show (((sorted (keys.map hex)).map Json.str).mapM bytesFromHex >>= fun keys =>
    new keys (((sorted subjects).map Json.str).map env.str)) = _
  rw [hread, hstr]
  show new keys' (sorted subjects) = _
  rw [new_eq_ok_iff, List.toFinset_eq_of_perm _ _ hperm,
    List.toFinset_eq_of_perm _ _ (perm_sorted subjects)]
  exact ⟨fun key hmem => hkeys key (hperm.mem_iff.mp hmem), rfl⟩

/-- Keys of the right length, and subjects without surrogates. -/
structure Valid (revocation : RevocationList) : Prop where
  length_key : ∀ key ∈ revocation.keys, key.length = X25519_KEY_LEN
  plain_subject : ∀ subject ∈ revocation.subjects, Plain subject

namespace Valid

variable {self : RevocationList}

/-- A list is read back from its dictionary. -/
theorem fromDict_toDict (h : self.Valid) (env : Env) :
    fromDict env self.toDict.toJson = .ok self := by
  have hkeys : ∀ key ∈ self.keys.toList, key.length = X25519_KEY_LEN := fun key hmem =>
    h.length_key key (Finset.mem_toList.mp hmem)
  rw [toDict_eq_dictOf_toList, fromDict_dictOf env hkeys, Finset.toList_toFinset,
    Finset.toList_toFinset]

/-- What calls lead to can be dumped. -/
theorem plain_toDict (h : self.Valid) : self.toDict.Plain := by
  rw [toDict_eq_dictOf_toList]
  simp only [Json.Fields.Plain, dictOf, List.forall_mem_cons]
  refine ⟨⟨plain_ofString _, fun text hmem => ?_⟩, ⟨plain_ofString _, fun text hmem => ?_⟩, by simp⟩
  · obtain ⟨key, -, rfl⟩ := List.mem_map.mp (mem_sorted.mp hmem)
    exact plain_hex key
  · exact h.plain_subject text (Finset.mem_toList.mp (mem_sorted.mp hmem))

/-- A list is read back from its file. -/
theorem load_save (h : self.Valid) (env : Env) {limit : Nat} (hlimit : 2 ≤ limit) {Path : Type}
    [DecidableEq Path] (linesep : Linesep) (path : Path) (files : Files Path) :
    ∃ files', (self.save linesep path).run files = (.ok (), files') ∧
      load env limit files' path = .ok self := by
  obtain ⟨files', hsave, hload, -⟩ := loadDict_saveDict hlimit
    self.nodup_toDict h.plain_toDict linesep path files (new [] []) (fromDict env)
  refine ⟨files', hsave, ?_⟩
  rw [load, hload, sortItems_toDict, h.fromDict_toDict]

end Valid

/-- A call of a method that changes a list. -/
inductive Call where
  | revokeKey (publicKey : Bytes)
  | revokeSubject (subject : Str)

/-- The subject, if any, has no surrogates. -/
def Call.Plain : Call → Prop
  | revokeKey _ => True
  | revokeSubject subject => SecureWs.Plain subject

/-- What a call returns or raises, and the list that it leaves. -/
def call (self : RevocationList) : Call → Except PyError Unit × RevocationList
  | .revokeKey publicKey => (revokeKey publicKey).run self
  | .revokeSubject subject => (revokeSubject subject).run self

/-- A call without surrogates keeps a list valid. -/
theorem Valid.call {self : RevocationList} (h : self.Valid) {event : Call} (hevent : event.Plain) :
    (self.call event).2.Valid := by
  cases event with
  | revokeKey publicKey =>
      by_cases hkey : publicKey.length = X25519_KEY_LEN
      · have hcall : (self.call (.revokeKey publicKey)).2 =
            { self with keys := insert publicKey self.keys } :=
          congrArg Prod.snd (run_revokeKey hkey self)
        rw [hcall]
        exact ⟨(Finset.forall_mem_insert _ _ _).mpr ⟨hkey, h.length_key⟩, h.plain_subject⟩
      · obtain ⟨exc, hrun⟩ := run_revokeKey_of_length_ne hkey self
        have hcall : (self.call (.revokeKey publicKey)).2 = self := congrArg Prod.snd hrun
        rwa [hcall]
  | revokeSubject subject =>
      exact ⟨h.length_key, (Finset.forall_mem_insert _ _ _).mpr ⟨hevent, h.plain_subject⟩⟩

/-- The lists that calls lead to from one that the constructor built. -/
def Reached (self : RevocationList) : Prop :=
  ∃ keys subjects calls start, (∀ subject ∈ subjects, Plain subject) ∧
    (∀ event ∈ calls, Call.Plain event) ∧ new keys subjects = .ok start ∧
    self = Runs.after call start calls

/-- What such calls lead to is valid. -/
theorem valid_of_reached {self : RevocationList} (h : self.Reached) : self.Valid := by
  obtain ⟨keys, subjects, calls, start, hsubjects, hcalls, hnew, rfl⟩ := h
  obtain ⟨hkeys, rfl⟩ := new_eq_ok_iff.mp hnew
  have hstart : Valid ⟨keys.toFinset, subjects.toFinset⟩ :=
    ⟨fun key hmem => hkeys key (List.mem_toFinset.mp hmem),
      fun subject hmem => hsubjects subject (List.mem_toFinset.mp hmem)⟩
  exact Runs.inv_after hcalls hstart fun _ _ hvalid hevent => hvalid.call hevent

/-- Lists that answer alike are the same. -/
theorem eq_of_isRevoked {self other : RevocationList}
    (hkeys : ∀ key, self.isRevokedKey key = other.isRevokedKey key)
    (hsubjects : ∀ subject, self.isRevokedSubject subject = other.isRevokedSubject subject) :
    self = other := by
  obtain ⟨keys, subjects⟩ := self
  obtain ⟨keys', subjects'⟩ := other
  have hkeys : keys = keys' := Finset.ext fun key => decide_eq_decide.mp (hkeys key)
  have hsubjects : subjects = subjects' := Finset.ext fun subject =>
    decide_eq_decide.mp (hsubjects subject)
  rw [hkeys, hsubjects]

end RevocationList

/-! ## Known peers -/

namespace KnownPeers

/-- `self._pins.items()`, by label: the model leaves the order of a
dictionary out. -/
def items (self : KnownPeers) : List (Str × Bytes) :=
  self.pins.keys.sort.filterMap fun label => (self.pinned label).map fun key => (label, key)

/-- A pin in the dictionary of `to_dict`. -/
def entry (item : Str × Bytes) : Str × Json.Field := (item.1, .str (hex item.2))

/-- `known_peers.to_dict()`. -/
def toDict (self : KnownPeers) : Json.Fields := self.items.map entry

/-- `KnownPeers(pins)`. -/
def ofItems (items : List (Str × Bytes)) : KnownPeers :=
  items.foldl (fun self item => self.insert item.1 item.2) empty

def fromDict : Json → Except PyError KnownPeers
  | .dict data => do
      let pins ← data.mapM fun item => do return (item.1, ← bytesFromHex item.2)
      forM pins fun pin => validatePublicKey pin.2
      return ofItems pins
  | _ => throw (.attributeError [])

/-- `known_peers.save(path)`. -/
def save {Path : Type} [DecidableEq Path] (self : KnownPeers) (linesep : Linesep) (path : Path) :
    Imp PyError (Files Path) Unit :=
  saveDict linesep path self.toDict

/-- `KnownPeers.load(path)`. -/
def load {Path : Type} (limit : Nat) (files : Files Path) (path : Path) :
    Except PyError KnownPeers :=
  loadDict limit (.ok empty) fromDict files path

/-- A pin can be read off its entry. -/
theorem entry_injective : Function.Injective entry := by
  intro item item' h
  obtain ⟨hlabel, hkey⟩ := Prod.mk.inj h
  exact Prod.ext hlabel (hex_injective (Json.Field.str.inj hkey))

/-- The items are the pins. -/
theorem mem_items {self : KnownPeers} {label : Str} {key : Bytes} :
    (label, key) ∈ self.items ↔ self.pinned label = some key := by
  have hknown : self.pinned label = some key → label ∈ self.pins := fun h =>
    Finmap.mem_iff.mpr ⟨key, h⟩
  simp only [items, List.mem_filterMap, Finset.mem_sort, Finmap.mem_keys, Option.map_eq_some_iff,
    Prod.mk.injEq]
  constructor
  · intro h
    obtain ⟨_, -, _, hpinned, rfl, rfl⟩ := h
    exact hpinned
  · intro h
    exact ⟨label, hknown h, key, h, rfl, rfl⟩

/-- The labels are sorted. -/
theorem map_fst_items (self : KnownPeers) : self.items.map Prod.fst = self.pins.keys.sort := by
  rw [items, List.map_filterMap]
  refine (List.filterMap_congr fun label hmem => ?_).trans List.filterMap_some
  rw [Finset.mem_sort, Finmap.mem_keys, Finmap.mem_iff] at hmem
  obtain ⟨key, hkey⟩ := hmem
  have hpinned : self.pinned label = some key := hkey
  simp [hpinned]

/-- No label occurs twice. -/
theorem nodup_items (self : KnownPeers) : (self.items.map Prod.fst).Nodup := by
  rw [map_fst_items]
  exact Finset.sort_nodup _ _

/-- The pins of a store to which items with distinct labels were added. -/
theorem pinned_foldl_insert {items : List (Str × Bytes)} (h : (items.map Prod.fst).Nodup)
    (self : KnownPeers) (label : Str) (key : Bytes) :
    (items.foldl (fun self item => self.insert item.1 item.2) self).pinned label = some key ↔
      (label, key) ∈ items ∨ label ∉ items.map Prod.fst ∧ self.pinned label = some key := by
  induction items generalizing self with
  | nil => simp
  | cons item items ih =>
      obtain ⟨label', key'⟩ := item
      obtain ⟨hfresh, hrest⟩ := List.nodup_cons.mp h
      have hnot : ∀ key, (label', key) ∉ items := fun key hmem =>
        hfresh (List.mem_map.mpr ⟨_, hmem, rfl⟩)
      rw [List.foldl_cons, ih hrest, pinned_insert]
      by_cases hlabel : label = label'
      · subst hlabel
        have hfresh : label ∉ items.map Prod.fst := hfresh
        simp [hnot, hfresh, eq_comm]
      · simp [hlabel]

/-- A store is read back from its items, in any order. -/
theorem ofItems_of_perm {self : KnownPeers} {items : List (Str × Bytes)}
    (h : items.Perm self.items) : ofItems items = self := by
  have hnodup : (items.map Prod.fst).Nodup := (h.map Prod.fst).nodup_iff.mpr self.nodup_items
  have hpinned : ∀ label key, (ofItems items).pinned label = some key ↔
      self.pinned label = some key := by
    intro label key
    rw [ofItems, pinned_foldl_insert hnodup, h.mem_iff, mem_items]
    simp [empty, pinned]
  have hlookup : (ofItems items).pins = self.pins :=
    Finmap.ext_lookup fun label => Option.ext fun key => hpinned label key
  exact congrArg KnownPeers.mk hlookup

/-- No key of the dictionary occurs twice. -/
theorem nodup_toDict (self : KnownPeers) : (self.toDict.map Prod.fst).Nodup := by
  rw [toDict, List.map_map]
  exact self.nodup_items

/-- The order of a dictionary does not show in its file. -/
theorem saveDict_of_perm {self : KnownPeers} {data : Json.Fields} (h : data.Perm self.toDict)
    {Path : Type} [DecidableEq Path] (linesep : Linesep) (path : Path) :
    saveDict linesep path data = self.save linesep path := by
  have hnodup := (h.map Prod.fst).nodup_iff.mpr self.nodup_toDict
  rw [save, saveDict, saveDict, Json.dumpsIndent_eq_of_perm h hnodup]

/-- Keys of the right length, under labels without surrogates. -/
def Valid (self : KnownPeers) : Prop :=
  ∀ label key, self.pinned label = some key → key.length = X25519_KEY_LEN ∧ Plain label

namespace Valid

variable {self : KnownPeers}

/-- A store is read back from its dictionary, in any order. -/
theorem fromDict_of_perm (h : self.Valid) {data : Json.Fields} (hdata : data.Perm self.toDict) :
    fromDict data.toJson = .ok self := by
  obtain ⟨items, rfl, hperm⟩ := exists_perm_map entry_injective hdata
  have hread : ((items.map entry).map fun field => (field.1, field.2.toJson)).mapM
      (fun item => do return (item.1, ← bytesFromHex item.2)) = .ok items := by
    rw [List.map_map]
    refine mapM_eq_ok_of_forall fun item _ => ?_
    show (bytesFromHex (.str (hex item.2)) >>= fun key => Except.ok (item.1, key)) = _
    rw [bytesFromHex_hex]
    rfl
  have hvalid : forM items (fun pin => validatePublicKey pin.2) = .ok () := by
    refine forM_eq_ok_of_forall fun pin hmem => ?_
    exact validatePublicKey_eq_ok_iff.mpr (h pin.1 pin.2 (mem_items.mp (hperm.mem_iff.mp hmem))).1
  unfold fromDict Json.Fields.toJson
  simp only [hread]
  show (forM items (fun pin => validatePublicKey pin.2) >>= fun _ => Except.ok (ofItems items)) = _
  rw [hvalid, ← ofItems_of_perm hperm]
  rfl

/-- What calls lead to can be dumped. -/
theorem plain_toDict (h : self.Valid) : self.toDict.Plain := by
  intro field hmem
  obtain ⟨item, hitem, rfl⟩ := List.mem_map.mp hmem
  exact ⟨(h item.1 item.2 (mem_items.mp hitem)).2, plain_hex _⟩

/-- A store is read back from its file. -/
theorem load_save (h : self.Valid) {limit : Nat} (hlimit : 2 ≤ limit) {Path : Type}
    [DecidableEq Path] (linesep : Linesep) (path : Path) (files : Files Path) :
    ∃ files', (self.save linesep path).run files = (.ok (), files') ∧
      load limit files' path = .ok self := by
  obtain ⟨files', hsave, hload, -⟩ := loadDict_saveDict hlimit self.nodup_toDict h.plain_toDict
    linesep path files (.ok empty) fromDict
  refine ⟨files', hsave, ?_⟩
  rw [load, hload, h.fromDict_of_perm (Json.perm_sortItems _)]

end Valid

/-- A call of a method that changes a store. -/
inductive Call where
  | pin (label : Str) (publicKey : Bytes)
  | trustOrVerify (label : Str) (publicKey : Bytes)

/-- The label has no surrogates. -/
def Call.Plain : Call → Prop
  | pin label _ => SecureWs.Plain label
  | trustOrVerify label _ => SecureWs.Plain label

/-- What a call returns or raises, and the store that it leaves. -/
def call (sha256 : Bytes → Bytes) (self : KnownPeers) :
    Call → Except PyError (Option Bool) × KnownPeers
  | .pin label publicKey =>
      let (result, after) := (pin label publicKey).run self
      (result.map fun _ => none, after)
  | .trustOrVerify label publicKey =>
      let (result, after) := (trustOrVerify sha256 label publicKey).run self
      (result.map some, after)

/-- A pin with a good label and a key of the right length keeps a store valid. -/
theorem Valid.insert {self : KnownPeers} (h : self.Valid) {label : Str} (hlabel : Plain label)
    {publicKey : Bytes} (hkey : publicKey.length = X25519_KEY_LEN) :
    (self.insert label publicKey).Valid := by
  intro label' key hpinned
  rw [pinned_insert] at hpinned
  by_cases hsame : label' = label
  · rw [if_pos hsame, Option.some.injEq] at hpinned
    subst hsame hpinned
    exact ⟨hkey, hlabel⟩
  · rw [if_neg hsame] at hpinned
    exact h label' key hpinned

/-- A call without surrogates keeps a store valid. -/
theorem Valid.call {self : KnownPeers} (h : self.Valid) (sha256 : Bytes → Bytes) {event : Call}
    (hevent : event.Plain) : (self.call sha256 event).2.Valid := by
  cases event with
  | pin label publicKey =>
      show ((KnownPeers.pin label publicKey).run self).2.Valid
      cases hvalid : validatePublicKey publicKey with
      | error exc => rwa [run_pin_of_invalid hvalid]
      | ok u =>
          have hkey := validatePublicKey_eq_ok_iff.mp hvalid
          rw [run_pin hkey]
          exact h.insert hevent hkey
  | trustOrVerify label publicKey =>
      show ((KnownPeers.trustOrVerify sha256 label publicKey).run self).2.Valid
      obtain ⟨exc, hrun⟩ | ⟨hrun, -⟩ | ⟨hrun, -, hkey⟩ :=
        trustOrVerify_cases sha256 label publicKey self
      · rwa [hrun]
      · rwa [hrun]
      · rw [hrun]
        exact h.insert hevent hkey

/-- The stores that calls lead to from an empty one. -/
def Reached (sha256 : Bytes → Bytes) (self : KnownPeers) : Prop :=
  ∃ calls, (∀ event ∈ calls, Call.Plain event) ∧ self = Runs.after (call sha256) empty calls

/-- What such calls lead to is valid. -/
theorem valid_of_reached {sha256 : Bytes → Bytes} {self : KnownPeers} (h : self.Reached sha256) :
    self.Valid := by
  obtain ⟨calls, hcalls, rfl⟩ := h
  have hempty : empty.Valid := fun label key hpinned => by simp [empty, pinned] at hpinned
  exact Runs.inv_after hcalls hempty fun _ _ hvalid hevent => hvalid.call sha256 hevent

end KnownPeers

/-! ## The stores of a program -/

/-- **Trust stores survive persistence.**  A list or a store that calls lead
to is read back the same, and so with the same answers, from its dictionary
and from its file, in whatever order the dictionary of a store lists its pins;
and lists that answer alike have one dictionary. -/
theorem trust_stores_survive (env : Env) {limit : Nat} (hlimit : 2 ≤ limit) {Path : Type}
    [DecidableEq Path] (linesep : Linesep) (path : Path) (files : Files Path) :
    (∀ revocation : RevocationList, revocation.Reached →
      RevocationList.fromDict env revocation.toDict.toJson = .ok revocation ∧
      ∃ files', (revocation.save linesep path).run files = (.ok (), files') ∧
        RevocationList.load env limit files' path = .ok revocation) ∧
    (∀ peers : KnownPeers, peers.Reached env.sha256 →
      (∀ data, data.Perm peers.toDict → KnownPeers.fromDict data.toJson = .ok peers ∧
        saveDict linesep path data = peers.save linesep path) ∧
      ∃ files', (peers.save linesep path).run files = (.ok (), files') ∧
        KnownPeers.load limit files' path = .ok peers) ∧
    ∀ revocation other : RevocationList,
      (∀ key, revocation.isRevokedKey key = other.isRevokedKey key) →
      (∀ subject, revocation.isRevokedSubject subject = other.isRevokedSubject subject) →
      revocation.toDict = other.toDict := by
  refine ⟨fun revocation hreached => ?_, fun peers hreached => ?_,
    fun revocation other hkeys hsubjects => ?_⟩
  · have hvalid := RevocationList.valid_of_reached hreached
    exact ⟨hvalid.fromDict_toDict env, hvalid.load_save env hlimit linesep path files⟩
  · have hvalid := KnownPeers.valid_of_reached hreached
    exact ⟨fun data hdata => ⟨hvalid.fromDict_of_perm hdata,
      KnownPeers.saveDict_of_perm hdata linesep path⟩, hvalid.load_save hlimit linesep path files⟩
  · rw [RevocationList.eq_of_isRevoked hkeys hsubjects]

/-- A key of one repeated byte. -/
def repeatedKey (b : UInt8) : Bytes := List.replicate X25519_KEY_LEN b

/-- A subject with a line separator and a character outside the basic plane,
a key that is refused and another that is revoked twice. -/
def revokedExample : RevocationList :=
  Runs.after RevocationList.call ⟨[repeatedKey 2].toFinset, [].toFinset⟩
    [.revokeKey (repeatedKey 1), .revokeSubject (Str.ofString "old\r\n𝄞"), .revokeKey [0],
      .revokeKey (repeatedKey 2)]

/-- A pin that is replaced, and one that is refused a second key. -/
def pinnedExample : KnownPeers :=
  Runs.after (KnownPeers.call fun bytes => bytes) KnownPeers.empty
    [.pin (Str.ofString "server") (repeatedKey 1),
      .trustOrVerify (Str.ofString "é") (repeatedKey 2),
      .trustOrVerify (Str.ofString "é") (repeatedKey 3),
      .pin (Str.ofString "server") (repeatedKey 4)]

theorem trust_stores_survive_examples :
    let env := exampleEnv (fun _ => .ok .null) (SignatureScheme.stamp 64)
    RevocationList.fromDict env revokedExample.toDict.toJson = .ok revokedExample ∧
    (∃ files', (revokedExample.save .crlf ()).run (fun _ => none) = (.ok (), files') ∧
      RevocationList.load env 1000 files' () = .ok revokedExample) ∧
    KnownPeers.fromDict (Json.Fields.toJson pinnedExample.toDict.reverse) = .ok pinnedExample ∧
    (∃ files', (pinnedExample.save .crlf ()).run (fun _ => none) = (.ok (), files') ∧
      KnownPeers.load 1000 files' () = .ok pinnedExample) ∧
    RevocationList.toDict ⟨{repeatedKey 1, repeatedKey 2}, ∅⟩ =
      RevocationList.toDict ⟨{repeatedKey 2, repeatedKey 1, repeatedKey 2}, ∅⟩ := by
  obtain ⟨hrevoked, hpinned, hcanonical⟩ := trust_stores_survive
    (exampleEnv (fun _ => .ok .null) (SignatureScheme.stamp 64)) (show 2 ≤ 1000 by decide)
    Linesep.crlf () fun _ => none
  have hrevoked := hrevoked revokedExample ⟨[repeatedKey 2], [], _, _, by simp, by
    simp [RevocationList.Call.Plain, plain_ofString], RevocationList.new_eq_ok_iff.mpr
      ⟨by simp [repeatedKey], rfl⟩, rfl⟩
  have hpinned := hpinned pinnedExample ⟨_, by simp [KnownPeers.Call.Plain, plain_ofString], rfl⟩
  have hkeys : ({repeatedKey 1, repeatedKey 2} : Finset Bytes) =
      {repeatedKey 2, repeatedKey 1, repeatedKey 2} := by decide
  have hanswers := fun key => congrArg (fun keys => RevocationList.isRevokedKey ⟨keys, ∅⟩ key) hkeys
  exact ⟨hrevoked.1, hrevoked.2, (hpinned.1 _ (List.reverse_perm _)).1, hpinned.2,
    hcanonical _ _ hanswers fun _ => rfl⟩

end SecureWs
