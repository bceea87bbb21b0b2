import SecureWs.Persistence
import SecureWs.Transport
import SecureWs.Lib.Durable
import SecureWs.Lib.JsonTorn

/-!
# SecureWs.Durability

The trust stores of a program that can die at any time, also in the middle of a
`save`, and that loads them again when it starts.

* `loadDict_cutShort`: of a dictionary whose `save` was cut short, `load` makes
  nothing at all;
* `cut_short_refused`: so a store is read back whole, or `load` raises, and never
  comes back empty or in part;
* `saved_pins_survive`, `saved_revocations_survive`: what was saved once holds in
  every later process.
-/

namespace SecureWs

open Python

section

variable {Path : Type} [DecidableEq Path]

/-- The files when the process has died while it wrote one of them: only the first
bytes of that one are there. -/
def cutShort (path : Path) (count : Nat) (files : Files Path) : Files Path :=
  Function.update files path ((files path).map fun data => data.take count)

/-- A dictionary whose `save` was cut short is not read back. -/
theorem loadDict_cutShort {α : Type} {limit : Nat} (hlimit : 2 ≤ limit) {data : Json.Fields}
    (hkeys : (data.map Prod.fst).Nodup) (hplain : data.Plain) (linesep : Linesep) (path : Path)
    (files : Files Path) (new : Except PyError α) (fromDict : Json → Except PyError α) :
    ∃ files' bytes, (saveDict linesep path data).run files = (.ok (), files') ∧
      files' path = some bytes ∧ ∀ count : Nat,
        (bytes.length ≤ count → cutShort path count files' = files') ∧
        (count < bytes.length →
          ∃ exc, loadDict limit new fromDict (cutShort path count files') path = .error exc) := by
  obtain ⟨bytes, hbytes, -⟩ := bytesText_dumpsIndent linesep data
  refine ⟨_, bytes, run_writeText hbytes path files, Function.update_self .., fun count => ⟨?_, ?_⟩⟩
  · intro hcount
    rw [cutShort, Function.update_self, Option.map_some, List.take_of_length_le hcount,
      Function.update_idem]
  · intro hcount
    obtain ⟨t, htext⟩ := Json.block_eq_cons (CodePoint.ofChar '{') (CodePoint.ofChar '}') 0
      ((Json.sortItems data).map fun entry => Json.memberText entry.1 (entry.2.dump 1))
    have hline := Json.onLine_dumpsIndent data
    have hascii : ∀ c ∈ Json.dumpsIndent data, Json.isAscii c = true := by
      intro c hc
      obtain hprintable | rfl := hline c hc
      · exact Json.isAscii_of_isPrintable hprintable
      · decide
    have hreturn : carriageReturn ∉ Json.dumpsIndent data := by
      intro hmem
      obtain hprintable | hnewline := hline _ hmem
      · exact absurd hprintable (by decide)
      · exact absurd hnewline (by decide)
    have hlast : (Json.dumpsIndent data).getLast? ≠ some newline := by
      rw [Json.dumpsIndent, Json.getLast?_block]
      decide
    obtain ⟨torn, hread, ⟨u, hsplit⟩, hstrict⟩ :=
      bytesText_take linesep hascii hreturn hlast hbytes count
    have hu : u ≠ [] := by
      rintro rfl
      rw [List.append_nil] at hsplit
      exact hstrict hcount hsplit
    have hscan := Json.scanOnce_dumpsIndent hlimit hkeys hplain []
    rw [List.append_nil] at hscan
    have htext : Json.dumpsIndent data = CodePoint.ofChar '{' :: t := htext
    rw [htext] at hscan hsplit
    obtain ⟨e, hloads⟩ := Json.loadsStr_torn hscan hsplit hu
    refine ⟨loadsError e, ?_⟩
    have hread' : readText (bytes.take count) = .ok torn := by rw [readText, hread]
    have hloads' : loadsText limit torn = .error (loadsError e) := by
      rw [loadsText, hloads]
      rfl
    rw [loadDict, cutShort, Function.update_self, Function.update_self, Option.map_some]
    show (readText (bytes.take count) >>= fun text => loadsText limit text >>= fromDict) = _
    rw [hread']
    show (loadsText limit torn >>= fromDict) = _
    rw [hloads']
    rfl

/-! ## One store -/

namespace KnownPeers.Valid

/-- A store whose `save` was cut short is read back whole, or not at all. -/
theorem load_cutShort {self : KnownPeers} (h : self.Valid) {limit : Nat} (hlimit : 2 ≤ limit)
    (linesep : Linesep) (path : Path) (files : Files Path) :
    ∃ files' bytes, (self.save linesep path).run files = (.ok (), files') ∧
      files' path = some bytes ∧ ∀ count : Nat,
        (bytes.length ≤ count → load limit (cutShort path count files') path = .ok self) ∧
        (count < bytes.length →
          ∃ exc, load limit (cutShort path count files') path = .error exc) := by
  obtain ⟨files', bytes, hsave, hbytes, hcut⟩ := loadDict_cutShort hlimit self.nodup_toDict
    h.plain_toDict linesep path files (.ok empty) fromDict
  obtain ⟨files'', hsave', hload⟩ := h.load_save hlimit linesep path files
  obtain rfl : files'' = files' := congrArg Prod.snd (hsave'.symm.trans hsave)
  refine ⟨files'', bytes, hsave, hbytes, fun count => ⟨fun hcount => ?_, (hcut count).2⟩⟩
  rw [(hcut count).1 hcount, hload]

end KnownPeers.Valid

namespace RevocationList.Valid

/-- A list whose `save` was cut short is read back whole, or not at all. -/
theorem load_cutShort {self : RevocationList} (h : self.Valid) (env : Env) {limit : Nat}
    (hlimit : 2 ≤ limit) (linesep : Linesep) (path : Path) (files : Files Path) :
    ∃ files' bytes, (self.save linesep path).run files = (.ok (), files') ∧
      files' path = some bytes ∧ ∀ count : Nat,
        (bytes.length ≤ count → load env limit (cutShort path count files') path = .ok self) ∧
        (count < bytes.length →
          ∃ exc, load env limit (cutShort path count files') path = .error exc) := by
  obtain ⟨files', bytes, hsave, hbytes, hcut⟩ := loadDict_cutShort hlimit self.nodup_toDict
    h.plain_toDict linesep path files (new [] []) (fromDict env)
  obtain ⟨files'', hsave', hload⟩ := h.load_save env hlimit linesep path files
  obtain rfl : files'' = files' := congrArg Prod.snd (hsave'.symm.trans hsave)
  refine ⟨files'', bytes, hsave, hbytes, fun count => ⟨fun hcount => ?_, (hcut count).2⟩⟩
  rw [(hcut count).1 hcount, hload]

end RevocationList.Valid

/-- **A store never comes back empty or in part.**  When the process dies while it
saves a store that calls have led to, with labels and subjects without surrogates,
then with all bytes of the file written `load` gives the store back, and with
fewer it raises. -/
theorem cut_short_refused (env : Env) {limit : Nat} (hlimit : 2 ≤ limit) (linesep : Linesep)
    (path : Path) (files : Files Path) :
    (∀ peers : KnownPeers, peers.Reached env.sha256 →
      ∃ files' bytes, (peers.save linesep path).run files = (.ok (), files') ∧
        files' path = some bytes ∧ ∀ count : Nat,
          (bytes.length ≤ count →
            KnownPeers.load limit (cutShort path count files') path = .ok peers) ∧
          (count < bytes.length →
            ∃ exc, KnownPeers.load limit (cutShort path count files') path = .error exc)) ∧
    ∀ revocation : RevocationList, revocation.Reached →
      ∃ files' bytes, (revocation.save linesep path).run files = (.ok (), files') ∧
        files' path = some bytes ∧ ∀ count : Nat,
          (bytes.length ≤ count →
            RevocationList.load env limit (cutShort path count files') path = .ok revocation) ∧
          (count < bytes.length →
            ∃ exc, RevocationList.load env limit (cutShort path count files') path = .error exc) :=
  ⟨fun _ hreached =>
      (KnownPeers.valid_of_reached hreached).load_cutShort hlimit linesep path files,
    fun _ hreached =>
      (RevocationList.valid_of_reached hreached).load_cutShort env hlimit linesep path files⟩

theorem cut_short_refused_examples :
    let env := exampleEnv (fun _ => .ok .null) (SignatureScheme.stamp 64)
    (∃ files' bytes, (pinnedExample.save .crlf ()).run (fun _ => none) = (.ok (), files') ∧
      files' () = some bytes ∧ ∀ count < bytes.length,
        ∃ exc, KnownPeers.load 1000 (cutShort () count files') () = .error exc) ∧
    ∃ files' bytes, (revokedExample.save .crlf ()).run (fun _ => none) = (.ok (), files') ∧
      files' () = some bytes ∧ ∀ count < bytes.length,
        ∃ exc, RevocationList.load env 1000 (cutShort () count files') () = .error exc := by
  intro env
  obtain ⟨hpinned, hrevoked⟩ := cut_short_refused env (show 2 ≤ 1000 by decide) Linesep.crlf ()
    fun _ => none
  obtain ⟨files, bytes, hsave, hbytes, hcut⟩ := hpinned pinnedExample
    ⟨_, by simp [KnownPeers.Call.Plain, plain_ofString], rfl⟩
  obtain ⟨files', bytes', hsave', hbytes', hcut'⟩ := hrevoked revokedExample ⟨[repeatedKey 2], [],
    _, _, by simp, by simp [RevocationList.Call.Plain, plain_ofString],
    RevocationList.new_eq_ok_iff.mpr ⟨by simp [repeatedKey], rfl⟩, rfl⟩
  exact ⟨⟨files, bytes, hsave, hbytes, fun count => (hcut count).2⟩,
    ⟨files', bytes', hsave', hbytes', fun count => (hcut' count).2⟩⟩

/-! ## Many processes -/

/-- The pins of a program, and the file it keeps them in. -/
def KnownPeers.machine (sha256 : Bytes → Bytes) (limit : Nat) (linesep : Linesep) (path : Path) :
    Durable.Machine KnownPeers (Files Path) KnownPeers.Call where
  call self event := (self.call sha256 event).2
  save self files := ((self.save linesep path).run files).2
  tear count := cutShort path count
  load files := (KnownPeers.load limit files path).toOption

/-- The revocations of a program, and the file it keeps them in. -/
def RevocationList.machine (env : Env) (limit : Nat) (linesep : Linesep) (path : Path) :
    Durable.Machine RevocationList (Files Path) RevocationList.Call where
  call self event := (self.call event).2
  save self files := ((self.save linesep path).run files).2
  tear count := cutShort path count
  load files := (RevocationList.load env limit files path).toOption

/-- A call of `trust_or_verify`, with a label without surrogates. -/
def KnownPeers.Call.TrustsFirst : KnownPeers.Call → Prop
  | .pin _ _ => False
  | .trustOrVerify label _ => SecureWs.Plain label

/-- The pins, as a set. -/
def KnownPeers.facts (self : KnownPeers) : Set (Str × Bytes) :=
  {item | self.pinned item.1 = some item.2}

/-- The revoked keys and subjects, as a set. -/
def RevocationList.facts (self : RevocationList) : Set (Bytes ⊕ Str) :=
  {item | item.elim self.isRevokedKey self.isRevokedSubject = true}

theorem KnownPeers.sound (sha256 : Bytes → Bytes) {limit : Nat} (hlimit : 2 ≤ limit)
    (linesep : Linesep) (path : Path) :
    (machine sha256 limit linesep path).Sound Valid Call.TrustsFirst facts where
  valid_call self event hvalid hevent := by
    refine hvalid.call sha256 ?_
    cases event with
    | pin label publicKey => cases hevent
    | trustOrVerify label publicKey => exact hevent
  facts_call self event hevent := by
    cases event with
    | pin label publicKey => cases hevent
    | trustOrVerify label publicKey =>
        have hfirst : PinsFirst label publicKey self
            ((trustOrVerify sha256 label publicKey).run self).2 := by
          obtain ⟨exc, hrun⟩ | ⟨hrun, -⟩ | ⟨hrun, hfree, -⟩ :=
            trustOrVerify_cases sha256 label publicKey self
          · exact .inl (congrArg Prod.snd hrun)
          · exact .inl (congrArg Prod.snd hrun)
          · exact .inr ⟨hfree, congrArg Prod.snd hrun⟩
        exact fun item hpinned => hfirst.pinned_of_pinned hpinned
  load_save self files hvalid := by
    obtain ⟨files', hsave, hload⟩ := hvalid.load_save hlimit linesep path files
    simp only [machine, hsave, hload]
    rfl
  load_tear self files count hvalid := by
    obtain ⟨files', bytes, hsave, -, hcut⟩ := hvalid.load_cutShort hlimit linesep path files
    simp only [machine, hsave]
    obtain hcount | hcount := Nat.lt_or_ge count bytes.length
    · obtain ⟨exc, hload⟩ := (hcut count).2 hcount
      rw [hload]
      exact .inr rfl
    · rw [(hcut count).1 hcount]
      exact .inl rfl

theorem RevocationList.sound (env : Env) {limit : Nat} (hlimit : 2 ≤ limit)
    (linesep : Linesep) (path : Path) :
    (machine env limit linesep path).Sound Valid Call.Plain facts where
  valid_call self event hvalid hevent := hvalid.call hevent
  facts_call self event _ := by
    cases event with
    | revokeKey publicKey =>
        by_cases hkey : publicKey.length = X25519_KEY_LEN
        · have hcall : (self.call (.revokeKey publicKey)).2 =
              { self with keys := insert publicKey self.keys } :=
            congrArg Prod.snd (run_revokeKey hkey self)
          intro item hitem
          show item ∈ (self.call (.revokeKey publicKey)).2.facts
          rw [hcall]
          cases item with
          | inl key => exact decide_eq_true (Finset.mem_insert_of_mem (of_decide_eq_true hitem))
          | inr subject => exact hitem
        · obtain ⟨exc, hrun⟩ := run_revokeKey_of_length_ne hkey self
          have hcall : (self.call (.revokeKey publicKey)).2 = self := congrArg Prod.snd hrun
          simp only [machine, hcall]
          exact subset_rfl
    | revokeSubject subject =>
        intro item hitem
        cases item with
        | inl key => exact hitem
        | inr other => exact decide_eq_true (Finset.mem_insert_of_mem (of_decide_eq_true hitem))
  load_save self files hvalid := by
    obtain ⟨files', hsave, hload⟩ := hvalid.load_save env hlimit linesep path files
    simp only [machine, hsave, hload]
    rfl
  load_tear self files count hvalid := by
    obtain ⟨files', bytes, hsave, -, hcut⟩ := hvalid.load_cutShort env hlimit linesep path files
    simp only [machine, hsave]
    obtain hcount | hcount := Nat.lt_or_ge count bytes.length
    · obtain ⟨exc, hload⟩ := (hcut count).2 hcount
      rw [hload]
      exact .inr rfl
    · rw [(hcut count).1 hcount]
      exact .inl rfl

/-- **Saved pins survive.**  A program starts without a file, and then calls
`trust_or_verify` with labels without surrogates, saves its pins, dies in the
middle of a `save` or between two calls, and starts again, in any order.  A pin
that it holds at some `save` is held, with the same key, by every later process;
and when a `save` was cut short so that the program cannot start on what is left,
it never starts on anything else. -/
theorem saved_pins_survive (sha256 : Bytes → Bytes) {limit : Nat} (hlimit : 2 ≤ limit)
    (linesep : Linesep) (path : Path) (files : Files Path) (hfresh : files path = none)
    (before after : List (Durable.Event KnownPeers.Call))
    (hbefore : ∀ event ∈ before, event.Calls KnownPeers.Call.TrustsFirst)
    (hafter : ∀ event ∈ after, event.Calls KnownPeers.Call.TrustsFirst) (peers : KnownPeers)
    (hpeers : (Durable.run (KnownPeers.machine sha256 limit linesep path) ⟨none, files⟩
      before).memory = some peers) :
    (∀ later, (Durable.run (KnownPeers.machine sha256 limit linesep path) ⟨none, files⟩
        (before ++ .save :: after)).memory = some later →
      ∀ label key, peers.pinned label = some key → later.pinned label = some key) ∧
    ∀ count, (Durable.run (KnownPeers.machine sha256 limit linesep path) ⟨none, files⟩
        (before ++ [.crash count, .restart])).memory = none →
      (Durable.run (KnownPeers.machine sha256 limit linesep path) ⟨none, files⟩
        (before ++ .crash count :: after)).memory = none := by
  have hdisk : ∀ store,
      (KnownPeers.machine sha256 limit linesep path).load files = some store → store.Valid := by
    intro store hload
    have hempty : KnownPeers.empty = store := by
      simpa [KnownPeers.machine, KnownPeers.load, loadDict, hfresh, Except.toOption] using hload
    rw [← hempty]
    intro label key hpinned
    simp [KnownPeers.empty, KnownPeers.pinned] at hpinned
  refine ⟨fun later hlater label key hpinned => ?_, fun count hdown => ?_⟩
  · exact Durable.saved_survives (KnownPeers.sound sha256 hlimit linesep path) rfl hdisk hbefore
      hafter hpeers hlater (a := (label, key)) hpinned
  · exact Durable.memory_of_torn hpeers hdown after

/-- A pin is made and saved; a `save` that dies once everything is written keeps
it, and one that dies after 40 bytes leaves nothing to start on. -/
theorem saved_pins_survive_crash :
    let label := Str.ofString "server"
    let M := KnownPeers.machine (fun bytes => bytes) 1000 .crlf ()
    let before := [.restart, .call (.trustOrVerify label (repeatedKey 1))]
    let after := [.crash 1000, .restart, .save, .restart]
    let s events := Durable.run M ⟨none, fun _ => none⟩ events
    (∃ later, (s (before ++ .save :: after)).memory = some later ∧
        later.pinned label = some (repeatedKey 1)) ∧
      (s (before ++ .crash 40 :: after)).memory = none := by
  intro label M before after s
  have hpeers : (s before).memory = some (KnownPeers.empty.insert label (repeatedKey 1)) := by rfl
  have hsome : (s (before ++ .save :: after)).memory.isSome = true := by decide +kernel
  have hnone : (s (before ++ [.crash 40, .restart])).memory.isNone = true := by decide +kernel
  obtain ⟨later, hlater⟩ := Option.isSome_iff_exists.mp hsome
  obtain ⟨hsurvives, hdown⟩ := saved_pins_survive (fun bytes => bytes) (show 2 ≤ 1000 by decide) .crlf
    () (fun _ => none) rfl before after
    (by simp [before, Durable.Event.Calls, KnownPeers.Call.TrustsFirst, label, plain_ofString])
    (by simp [after, Durable.Event.Calls]) _ hpeers
  refine ⟨⟨later, hlater, hsurvives later hlater label (repeatedKey 1) ?_⟩,
    hdown 40 (Option.isNone_iff_eq_none.mp hnone)⟩
  rw [KnownPeers.pinned_insert, if_pos rfl]

variable {Key T : Type} [Zero T] [LE T]

/-- **Saved revocations survive.**  A program starts without a file, and then
revokes keys, and subjects without surrogates, saves its list, dies in the middle
of a `save` or between two calls, and starts again, in any order.  What it has revoked at some
`save` is revoked in every later process, which lets no peer with such a key
through; and when a `save` was cut short so that the program cannot start on what
is left, it never starts on anything else. -/
theorem saved_revocations_survive (env : Env) {limit : Nat} (hlimit : 2 ≤ limit)
    (linesep : Linesep) (path : Path) (files : Files Path) (hfresh : files path = none)
    (before after : List (Durable.Event RevocationList.Call))
    (hbefore : ∀ event ∈ before, event.Calls RevocationList.Call.Plain)
    (hafter : ∀ event ∈ after, event.Calls RevocationList.Call.Plain)
    (revocation : RevocationList)
    (hrevocation : (Durable.run (RevocationList.machine env limit linesep path) ⟨none, files⟩
      before).memory = some revocation) :
    (∀ later, (Durable.run (RevocationList.machine env limit linesep path) ⟨none, files⟩
        (before ++ .save :: after)).memory = some later →
      (∀ subject, revocation.isRevokedSubject subject = true →
        later.isRevokedSubject subject = true) ∧
      ∀ key, revocation.isRevokedKey key = true → later.isRevokedKey key = true ∧
        ∀ (config : Config) (clock : ℚ) (peer : Peer Key) (world : World Key T),
          config.revocation = some later → peer.result.remoteStatic = key →
            ((authenticate env config clock peer).run world).1 ≠ .ok ()) ∧
    ∀ count, (Durable.run (RevocationList.machine env limit linesep path) ⟨none, files⟩
        (before ++ [.crash count, .restart])).memory = none →
      (Durable.run (RevocationList.machine env limit linesep path) ⟨none, files⟩
        (before ++ .crash count :: after)).memory = none := by
  have hdisk : ∀ store,
      (RevocationList.machine env limit linesep path).load files = some store → store.Valid := by
    intro store hload
    have hnew : (RevocationList.new [] []).toOption = some store := by
      simpa [RevocationList.machine, RevocationList.load, loadDict, hfresh] using hload
    obtain rfl := Option.some.inj hnew
    exact ⟨by simp, by simp⟩
  refine ⟨fun later hlater => ?_, fun count hdown => ?_⟩
  · have hfacts := Durable.saved_survives (RevocationList.sound env hlimit linesep path) rfl hdisk
      hbefore hafter hrevocation hlater
    refine ⟨fun subject hsubject => ?_, fun key hkey => ?_⟩
    · exact hfacts (a := .inr subject) hsubject
    · have hlater : later.isRevokedKey key = true := hfacts (a := .inl key) hkey
      refine ⟨hlater, fun config clock peer world hconfig hpeer hok => ?_⟩
      have hopen := (authenticate_eq_ok_iff.mp hok).key.not_revoked later hconfig
      rw [hpeer, hlater] at hopen
      cases hopen
  · exact Durable.memory_of_torn hrevocation hdown after

/-- A key is revoked and the list saved; a `save` that dies once everything is
written keeps it, and one that dies after 40 bytes leaves nothing to start on. -/
theorem saved_revocations_survive_crash :
    let env := exampleEnv (fun _ => .ok .null) (SignatureScheme.stamp 64)
    let M := RevocationList.machine env 1000 .crlf ()
    let before := [.restart, .call (.revokeKey (repeatedKey 1))]
    let after := [.crash 1000, .restart, .save, .restart]
    let s events := Durable.run M ⟨none, fun _ => none⟩ events
    (∃ later, (s (before ++ .save :: after)).memory = some later ∧
        later.isRevokedKey (repeatedKey 1) = true) ∧
      (s (before ++ .crash 40 :: after)).memory = none := by
  intro env M before after s
  have hrevocation : (s before).memory = some ⟨{repeatedKey 1}, ∅⟩ := by rfl
  have hsome : (s (before ++ .save :: after)).memory.isSome = true := by decide +kernel
  have hnone : (s (before ++ [.crash 40, .restart])).memory.isNone = true := by decide +kernel
  obtain ⟨later, hlater⟩ := Option.isSome_iff_exists.mp hsome
  obtain ⟨hsurvives, hdown⟩ := @saved_revocations_survive _ _ Nat ℤ _ _ env 1000 (by decide) .crlf ()
    (fun _ => none) rfl before after
    (by simp [before, Durable.Event.Calls, RevocationList.Call.Plain])
    (by simp [after, Durable.Event.Calls]) _ hrevocation
  obtain ⟨-, hkeys⟩ := hsurvives later hlater
  exact ⟨⟨later, hlater, (hkeys (repeatedKey 1) (by decide)).1⟩,
    hdown 40 (Option.isNone_iff_eq_none.mp hnone)⟩

end

end SecureWs
