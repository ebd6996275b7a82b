import Mathlib.Data.List.AList
import Sqi.OpenJD.Template

/-! Embedded files: how a template's are validated, and how a session on a Unix worker writes them. -/

namespace Sqi.Worker
open List GoText Program Prog

def maxIdentifierLen : Nat := 64
def maxEmbeddedFilenameLen : Nat := 64

section
variable (quote : String → String)

def validateIdentifierLen (v ptr : String) : List ValidationError :=
  if maxIdentifierLen < v.length then
    [⟨ptr, s!"identifier must be at most {maxIdentifierLen} characters (got {v.length})"⟩]
  else []

/-- The errors of a name, and the names seen after it. -/
def embeddedNameErrors (name ptr : String) (seen : List String) : List ValidationError × List String :=
  if name = "" then ([⟨ptr, "required"⟩], seen)
  else if isIdentifier name = false then
    ([⟨ptr, s!"invalid identifier {quote name}; must match [A-Za-z_][A-Za-z0-9_]*"⟩], seen)
  else (validateIdentifierLen name ptr ++
    if name ∈ seen then [⟨ptr, s!"duplicate embedded file name {quote name}"⟩] else [], name :: seen)

def filenameErrors (f : EmbeddedFile) (ptr : String) : List ValidationError :=
  (if f.filenameSet ∧ f.filename = "" then [⟨ptr, "must not be empty when provided"⟩] else []) ++
    (if maxEmbeddedFilenameLen < f.filename.length then
      [⟨ptr, s!"must be at most {maxEmbeddedFilenameLen} characters (got {f.filename.length})"⟩] else []) ++
    if '/' ∈ f.filename.toList ∨ '\\' ∈ f.filename.toList then
      [⟨ptr, "must be a bare filename with no directory path"⟩] else []

def typeErrors (ptr : String) : EmbeddedFileType → List ValidationError
  | .text => []
  | .absent => [⟨ptr, "required; must be TEXT"⟩]
  | .other name => [⟨ptr, s!"unsupported embedded file type {quote name}; expected TEXT"⟩]

def validateEmbeddedFileEntry (f : EmbeddedFile) (base : String) (seen : List String) :
    List ValidationError × List String :=
  let names := embeddedNameErrors quote f.name (base ++ "/name") seen
  (names.1 ++ (if f.data = "" then [⟨base ++ "/data", "required; must be at least 1 character"⟩] else []) ++
    filenameErrors f (base ++ "/filename") ++ typeErrors quote (base ++ "/type") f.type, names.2)

def embeddedEntryErrors (ptr : String) : Nat → List String → List EmbeddedFile → List ValidationError
  | _, _, [] => []
  | j, seen, f :: files =>
    let entry := validateEmbeddedFileEntry quote f s!"{ptr}/{j}" seen
    entry.1 ++ embeddedEntryErrors ptr (j + 1) entry.2 files

def requireNonEmptyIfSet (set : Bool) (n : Nat) (ptr noun : String) : List ValidationError :=
  if set = false ∨ 0 < n then [] else [⟨ptr, s!"must contain at least one {noun} when provided"⟩]
def validateEmbeddedFiles (files : List EmbeddedFile) (set : Bool) (ptr : String) : List ValidationError :=
  requireNonEmptyIfSet set files.length ptr "embedded file" ++ embeddedEntryErrors quote ptr 0 [] files

/-! ## Names and paths -/

/-- `filepath.Base`. -/
def base (p : Text) : Text :=
  let last := ((p.reverse.dropWhile (· = '/')).takeWhile (· ≠ '/')).reverse
  if p = [] then ['.'] else if last = [] then ['/'] else last

def embeddedFileName (f : EmbeddedFile) : Except String Text :=
  let name := if f.filename = "" then f.name else f.filename
  if name = "" then .error "embedded file has no name or filename"
  else if base name.toList ≠ name.toList then
    .error s!"filename {quote name} must not contain path separators"
  else if '\x00' ∈ name.toList then .error s!"filename {quote name} must not contain null bytes"
  else .ok name.toList

end

/-- The names on the way from the root. -/
abbrev Path := List Text

def cleanElement (above : Path) (name : Text) : Path :=
  if name = [] ∨ name = ['.'] then above
  else if name = ['.', '.'] then above.dropLast
  else above ++ [name]

/-- `filepath.Clean` of a rooted path. -/
def clean (p : Text) : Path := (p.splitOn '/').foldl cleanElement []

structure WorkDir where
  path : Text
  rooted : path.head? = some '/'

/-- `filepath.Join`. -/
def WorkDir.join (dir : WorkDir) (name : Text) : Path := clean (dir.path ++ '/' :: name)

lemma splitOn_append (a b : Text) : (a ++ '/' :: b).splitOn '/' = a.splitOn '/' ++ b.splitOn '/' :=
  splitOnP_append_cons a b (by simp)
lemma splitOn_of_notMem {name : Text} (h : '/' ∉ name) : name.splitOn '/' = [name] :=
  splitOnP_eq_singleton fun c hc => by simpa using fun e : c = '/' => h (e ▸ hc)

lemma WorkDir.join_eq (dir : WorkDir) {name : Text} (hslash : '/' ∉ name) :
    dir.join name = cleanElement (clean dir.path) name := by
  rw [join, clean, splitOn_append, splitOn_of_notMem hslash, foldl_append]
  rfl

structure Credential where
  uid : Nat
  gid : Nat
deriving DecidableEq

inductive Entry where
  | directory
  | file (data : Text) (perm : Nat) (owner : Option Credential)
  | link (target : Text)
deriving DecidableEq

abbrev FileTree := AList fun _ : Path => Entry

inductive FileError where
  | refused
  | name (text : String)
deriving DecidableEq

/-- What the system answers beyond what the tree decides: calls it refuses, and how much of the data a failed
write has written. -/
structure Answers where
  removeRefused : Bool
  openRefused : Bool
  writtenOnly : Option Nat
  chownRefused : Bool
deriving DecidableEq

abbrev Disk := Prog FileError FileTree

/-- `os.Remove`, which takes a directory only if it is empty, with nothing there being no error. -/
def removeExisting (p : Path) (refused : Bool) : Disk Unit := fun tree =>
  if refused ∨ p = [] then (.error .refused, tree)
  else if tree.lookup p = some .directory ∧ ∃ q ∈ tree.keys, q ≠ [] ∧ q.dropLast = p then (.error .refused, tree)
  else (.ok (), tree.erase p)

/-- `os.OpenFile` with `O_CREATE|O_EXCL|O_NOFOLLOW`. -/
def openFile (p : Path) (perm : Nat) (refused : Bool) : Disk Unit := fun tree =>
  if refused ∨ tree.lookup p ≠ none ∨ tree.lookup p.dropLast ≠ some .directory then (.error .refused, tree)
  else (.ok (), tree.insert p (.file [] perm none))
def store (p : Path) (e : Entry) : Disk Unit := lift fun tree => ((), tree.insert p e)

/-- The part of `WriteFileFchown` behind the removal. -/
def writeNewFile (p : Path) (data : Text) (perm : Nat) (cred : Option Credential) (io : Answers) : Disk Unit := do
  openFile p perm io.openRefused
  store p (.file (data.take (io.writtenOnly.getD data.length)) perm none)
  if io.writtenOnly ≠ none then fail .refused
  else if cred = none then pure ()
  else if io.chownRefused then fail .refused
  else store p (.file data perm cred)

def writeFileFchown (p : Path) (data : Text) (perm : Nat) (cred : Option Credential) (io : Answers) :
    Disk Unit := do
  removeExisting p io.removeRefused
  writeNewFile p data perm cred io

section
variable (quote : String → String) (dir : WorkDir) (cred : Option Credential)

/-- The data has its references resolved and its line ends converted. -/
def writeEmbeddedFile (data : EmbeddedFile → Text) (io : EmbeddedFile → Answers) (f : EmbeddedFile) : Disk Unit :=
  match embeddedFileName quote f with
  | .error text => fail (.name text)
  | .ok name => writeFileFchown (dir.join name) (data f) (if f.runnable then 0o750 else 0o640) cred (io f)
def writeEmbeddedFiles (data : EmbeddedFile → Text) (io : EmbeddedFile → Answers) (files : List EmbeddedFile) :
    Disk Unit :=
  each (writeEmbeddedFile quote dir cred data io) files

end

/-! ## What is touched -/

section
variable {quote : String → String} {f : EmbeddedFile} {files : List EmbeddedFile} {ptr : String}

lemma writeNewFile_keeps {I : FileTree → Prop} {p : Path} {data : Text} {perm : Nat} {cred : Option Credential}
    {io : Answers} (inserted : ∀ tree e, e ≠ .directory → I tree → I (tree.insert p e)) :
    Keeps I (writeNewFile p data perm cred io) := by
  have hstore : ∀ e, e ≠ .directory → Keeps I (store p e) := fun e he => .lift fun tree ht => inserted tree e he ht
  refine .bind (fun tree ht => ?_) fun _ => .bind (hstore _ nofun) fun _ => ?_
  · unfold openFile
    split
    · exact ht
    · exact inserted tree _ nofun ht
  split
  · exact .fail _
  split
  · exact .pure ()
  split
  · exact .fail _
  · exact hstore _ nofun

lemma removeExisting_keeps {I : FileTree → Prop} {p : Path} {refused : Bool}
    (erased : ∀ tree, I tree → I (tree.erase p)) :
    Keeps I (removeExisting p refused) := by
  intro tree ht
  unfold removeExisting
  split
  · exact ht
  split
  · exact ht
  · exact erased tree ht

lemma writeFileFchown_keeps {p q : Path} (h : q ≠ p) {at_ : Option Entry} {data : Text} {perm : Nat}
    {cred : Option Credential} {io : Answers} :
    Keeps (fun tree => tree.lookup q = at_) (writeFileFchown p data perm cred io) :=
  .bind (removeExisting_keeps fun _ ht => (AList.lookup_erase_ne h).trans ht) fun _ =>
    writeNewFile_keeps fun _ _ _ ht => (AList.lookup_insert_ne h).trans ht

lemma isIdentifier_of_entryErrors {j : Nat} {seen : List String}
    (h : embeddedEntryErrors quote ptr j seen files = []) (hf : f ∈ files) :
    isIdentifier f.name = true ∧ '/' ∉ f.filename.toList := by
  induction files generalizing j seen with
  | nil => cases hf
  | cons g files ih =>
    obtain ⟨hg, hrest⟩ := append_eq_nil_iff.mp h
    rcases mem_cons.mp hf with rfl | hf
    · simp only [validateEmbeddedFileEntry, append_eq_nil_iff, filenameErrors] at hg
      obtain ⟨⟨⟨hname, -⟩, -, hslash⟩, -⟩ := hg
      refine ⟨?_, fun hmem => by simp [hmem] at hslash⟩
      unfold embeddedNameErrors at hname
      split at hname
      · cases hname
      split at hname
      · cases hname
      · simpa using ‹¬ isIdentifier f.name = false›
    · exact ih hrest hf

lemma slash_free_of_isIdentifier {s : String} (h : isIdentifier s = true) :
    '/' ∉ s.toList ∧ s ≠ "." ∧ s ≠ ".." := by
  unfold isIdentifier at h
  split at h
  · cases h
  rename_i c cs hs
  simp only [Bool.and_eq_true, all_eq_true] at h
  have hchars : ∀ d ∈ s.toList, isIdentChar d = true := hs ▸ forall_mem_cons.mpr ⟨h.1.1, h.2⟩
  refine ⟨fun hmem => absurd (hchars _ hmem) (by decide), ?_, ?_⟩
  · rintro rfl
    exact absurd (hchars '.' (by decide)) (by decide)
  · rintro rfl
    exact absurd (hchars '.' (by decide)) (by decide)

lemma join_embeddedFileName {set : Bool} (valid : validateEmbeddedFiles quote files set ptr = [])
    (hf : f ∈ files) {name : Text} (hname : embeddedFileName quote f = .ok name) (dir : WorkDir) :
    dir.join name = if f.filename = "." then clean dir.path
      else if f.filename = ".." then (clean dir.path).dropLast else clean dir.path ++ [name] := by
  obtain ⟨hid, hslash⟩ := isIdentifier_of_entryErrors (append_eq_nil_iff.mp valid).2 hf
  obtain ⟨s, rfl, hne, hs, hdot, hdots⟩ : ∃ s : String, name = s.toList ∧ s ≠ "" ∧ '/' ∉ s.toList ∧
      (s = "." ↔ f.filename = ".") ∧ (s = ".." ↔ f.filename = "..") := by
    unfold embeddedFileName at hname
    dsimp only at hname
    repeat' split at hname
    all_goals cases hname
    · obtain ⟨hs, hdot, hdots⟩ := slash_free_of_isIdentifier hid
      exact ⟨_, rfl, ‹_›, hs, by simp [*], by simp [*]⟩
    · exact ⟨_, rfl, ‹_›, hslash, .rfl, .rfl⟩
  have hchars : ∀ t : String, s.toList = t.toList ↔ s = t := fun t => String.toList_inj
  have hempty : s.toList ≠ [] := fun e => hne ((hchars "").mp e)
  rw [dir.join_eq hs, cleanElement]
  simp only [← hdot, ← hdots, ← hchars, hempty, false_or]
  rfl

end

/-! ## The working directory -/

section
variable {quote : String → String} {dir : WorkDir} {cred : Option Credential} {data : EmbeddedFile → Text}
  {io : EmbeddedFile → Answers} {f : EmbeddedFile} {files : List EmbeddedFile} {tree : FileTree} {home p q : Path}
  {text name : Text} {perm : Nat} {answers : Answers}

def HoldsEntry (tree : FileTree) (home : Path) : Prop := ∃ q ∈ tree.keys, q ≠ [] ∧ q.dropLast = home

structure IsHome (home : Path) (tree : FileTree) : Prop where
  here : tree.lookup home = some .directory
  above : home ≠ [] → tree.lookup home.dropLast = some .directory

lemma IsHome.holdsEntry_above (h : IsHome home tree) (hne : home ≠ []) : HoldsEntry tree home.dropLast :=
  ⟨home, AList.lookup_isSome.mp (by simp [h.here]), hne, rfl⟩

lemma writeFileFchown_refused
    (h : p = [] ∨ answers.removeRefused ∨ tree.lookup p = some .directory ∧ HoldsEntry tree p) :
    writeFileFchown p text perm cred answers tree = (.error .refused, tree) := by
  refine bind_error ?_
  unfold removeExisting
  rcases h with rfl | h | h
  · rw [if_pos (.inr rfl)]
  · rw [if_pos (.inl h)]
  · split
    · rfl
    · exact if_pos h

lemma writeFileFchown_stored
    (h : (writeFileFchown p text perm cred answers tree).1 = .ok ()) :
    p ∈ (writeFileFchown p text perm cred answers tree).2.keys := by
  have stored : ∀ e t, Yields (store p e) t fun _ t => p ∈ t.keys := fun e t => by
    show p ∈ (t.insert p e).keys
    simp [AList.keys_insert]
  have all : Yields (writeFileFchown p text perm cred answers) tree fun r t => r = .ok () → p ∈ t.keys := by
    refine .bind (R := fun _ _ => True) trivial (fun _ t _ => ?_) (fun _ _ _ => nofun)
    refine .bind (R := fun _ _ => True) trivial (fun _ t _ => ?_) (fun _ _ _ => nofun)
    refine .bind (stored _ t) (fun _ t ht => ?_) (fun _ _ _ => nofun)
    split
    · nofun
    split
    · exact fun _ => ht
    split
    · nofun
    · exact fun _ => stored _ t
  exact all h

lemma insert_no_directory (t : FileTree) (e : Entry) (he : e ≠ .directory)
    (ht : t.lookup q ≠ some .directory) : (t.insert p e).lookup q ≠ some .directory := by
  by_cases hq : q = p
  · subst hq
    simpa [AList.lookup_insert] using he
  · rwa [AList.lookup_insert_ne hq]

/-- No directory is made: one that is gone stays so. -/
lemma writeFileFchown_no_directory :
    Keeps (fun tree => tree.lookup q ≠ some .directory) (writeFileFchown p text perm cred answers) := by
  refine .bind (removeExisting_keeps fun t ht => ?_) fun _ => writeNewFile_keeps insert_no_directory
  by_cases hq : q = p
  · subst hq
    simp
  · exact (AList.lookup_erase_ne hq).symm ▸ ht

lemma writeFileFchown_takes (hp : p ≠ []) (hr : answers.removeRefused = false) (hempty : ¬ HoldsEntry tree p) :
    (writeFileFchown p text perm cred answers tree).2.lookup p ≠ some .directory := by
  have removed : removeExisting p answers.removeRefused tree = (.ok (), tree.erase p) := by
    unfold removeExisting
    rw [if_neg (by simp [hr, hp]), if_neg fun h => hempty h.2]
  rw [writeFileFchown, bind_ok removed]
  exact writeNewFile_keeps insert_no_directory _ (by simp)

/-- What one file does from a state whose working directory is in place: it changes nothing and fails, or
writes a child, unless the directory itself is named and may be removed. -/
lemma writeEmbeddedFile_cases {set : Bool} {ptr : String} (valid : validateEmbeddedFiles quote files set ptr = [])
    (hf : f ∈ files) (hname : embeddedFileName quote f = .ok name)
    (hhome : IsHome (clean dir.path) tree)
    (safe : f.filename = "." → clean dir.path ≠ [] → (io f).removeRefused = false → HoldsEntry tree (clean dir.path)) :
    writeEmbeddedFile quote dir cred data io f tree = (.error .refused, tree) ∨
      dir.join name = clean dir.path ++ [name] := by
  have hjoin := join_embeddedFileName valid hf hname dir
  unfold writeEmbeddedFile
  rw [hname]
  dsimp only
  split at hjoin
  · rename_i hdot
    refine .inl (writeFileFchown_refused ?_)
    rw [hjoin]
    by_cases hroot : clean dir.path = []
    · exact .inl hroot
    · cases hr : (io f).removeRefused with
      | true => exact .inr (.inl rfl)
      | false => exact .inr (.inr ⟨hhome.here, safe hdot hroot hr⟩)
  split at hjoin
  · refine .inl (writeFileFchown_refused ?_)
    rw [hjoin]
    by_cases hroot : clean dir.path = []
    · exact .inl (by rw [hroot]; rfl)
    · exact .inr (.inr ⟨hhome.above hroot, hhome.holdsEntry_above hroot⟩)
  · exact .inr hjoin

lemma writeEmbeddedFile_child (hname : embeddedFileName quote f = .ok name)
    (hjoin : dir.join name = clean dir.path ++ [name]) (hp : p ≠ clean dir.path ++ [name]) :
    (writeEmbeddedFile quote dir cred data io f tree).2.lookup p = tree.lookup p := by
  unfold writeEmbeddedFile
  rw [hname]
  exact writeFileFchown_keeps (hjoin ▸ hp) tree rfl

lemma IsHome.writeEmbeddedFile (hhome : IsHome (clean dir.path) tree)
    (hname : embeddedFileName quote f = .ok name) (hjoin : dir.join name = clean dir.path ++ [name]) :
    IsHome (clean dir.path) (writeEmbeddedFile quote dir cred data io f tree).2 := by
  have shorter : ∀ p : Path, p.length ≤ (clean dir.path).length → p ≠ clean dir.path ++ [name] := by
    rintro p hp rfl
    simp at hp
  constructor
  · rw [writeEmbeddedFile_child hname hjoin (shorter _ le_rfl), hhome.here]
  · intro hne
    rw [writeEmbeddedFile_child hname hjoin (shorter _ (by simp)), hhome.above hne]

/-- The first file named `.` takes an empty working directory away. -/
def TakesHome (home : Path) (io : EmbeddedFile → Answers) (files : List EmbeddedFile) (tree : FileTree) : Prop :=
  home ≠ [] ∧ ¬ HoldsEntry tree home ∧ ∃ f ∈ files.head?, f.filename = "." ∧ (io f).removeRefused = false

/-- Each file that changes anything writes a child of the working directory, and nothing else changes. -/
def StaysInside (quote : String → String) (dir : WorkDir) (cred : Option Credential) (data : EmbeddedFile → Text)
    (io : EmbeddedFile → Answers) (files : List EmbeddedFile) (tree : FileTree) : Prop :=
  (∀ done f rest t name, files = done ++ f :: rest →
    writeEmbeddedFiles quote dir cred data io done tree = (.ok (), t) → embeddedFileName quote f = .ok name →
      (writeEmbeddedFile quote dir cred data io f t).2 = t ∨ dir.join name = clean dir.path ++ [name]) ∧
  ∀ p : Path, (∀ f ∈ files, ∀ name, embeddedFileName quote f = .ok name → p ≠ clean dir.path ++ [name]) →
    (writeEmbeddedFiles quote dir cred data io files tree).2.lookup p = tree.lookup p

lemma writeEmbeddedFiles_inside {set : Bool} {ptr : String} (valid : validateEmbeddedFiles quote files set ptr = [])
    {l : List EmbeddedFile} (hl : ∀ f ∈ l, f ∈ files ∧ ∃ name, embeddedFileName quote f = .ok name)
    (hhome : IsHome (clean dir.path) tree) (safe : ¬ TakesHome (clean dir.path) io l tree) :
    StaysInside quote dir cred data io l tree := by
  induction l generalizing tree with
  | nil => exact ⟨fun done f rest t name h => by simp at h, fun _ _ => rfl⟩
  | cons f l ih =>
    obtain ⟨⟨hf, name, hname⟩, hl⟩ := forall_mem_cons.mp hl
    have first : writeEmbeddedFile quote dir cred data io f tree = (.error .refused, tree) ∨ _ :=
      writeEmbeddedFile_cases valid hf hname hhome fun hdot hroot hr =>
        by_contra fun hempty => safe ⟨hroot, hempty, f, rfl, hdot, hr⟩
    cases hr : writeEmbeddedFile quote dir cred data io f tree with
    | mk r t' =>
    have child : r = .ok () → dir.join name = clean dir.path ++ [name] := fun hok =>
      first.resolve_left fun h => by cases hr.symm.trans h; cases hok
    -- a file that is refused ends the run
    have ends : ∀ e, r = .error e → ∀ l, writeEmbeddedFiles quote dir cred data io (f :: l) tree = (.error e, t') :=
      fun e he l => bind_error (he ▸ hr)
    have goes : r = .ok () → ∀ l, writeEmbeddedFiles quote dir cred data io (f :: l) tree =
        writeEmbeddedFiles quote dir cred data io l t' := fun he l => bind_ok (he ▸ hr)
    have hnext : r = .ok () → IsHome (clean dir.path) t' ∧ ¬ TakesHome (clean dir.path) io l t' := by
      intro hok
      have hhome' : IsHome _ (writeEmbeddedFile quote dir cred data io f tree).2 :=
        hhome.writeEmbeddedFile hname (child hok)
      rw [hr] at hhome'
      refine ⟨hhome', fun h => h.2.1 ⟨clean dir.path ++ [name], ?_, by simp, by simp⟩⟩
      unfold writeEmbeddedFile at hr
      rw [hname] at hr
      dsimp only at hr
      have stored := writeFileFchown_stored ((congrArg Prod.fst hr).trans hok)
      rwa [hr, child hok] at stored
    refine ⟨fun done g rest t gname e hdone hg => ?_, fun p hp => ?_⟩
    · cases done with
      | nil =>
        cases e
        cases hdone
        cases hname.symm.trans hg
        exact first.imp_left fun h => by rw [h]
      | cons g' done =>
        cases e
        cases hrr : r with
        | error err => rw [ends err hrr] at hdone; cases hdone
        | ok =>
          rw [goes hrr] at hdone
          exact (ih hl (hnext hrr).1 (hnext hrr).2).1 done g rest t gname rfl hdone hg
    · have hstep : t'.lookup p = tree.lookup p := by
        rcases first with h | hjoin
        · cases hr.symm.trans h
          rfl
        · have hchild : (writeEmbeddedFile quote dir cred data io f tree).2.lookup p = _ :=
            writeEmbeddedFile_child hname hjoin (hp f mem_cons_self name hname)
          rwa [hr] at hchild
      cases hrr : r with
      | error err => rw [ends err hrr, hstep]
      | ok =>
        rw [goes hrr, (ih hl (hnext hrr).1 (hnext hrr).2).2 p fun g hg => hp g (mem_cons_of_mem _ hg), hstep]

end

/-- The files of a step stay inside exactly if no file named `.` comes first while the directory is empty. -/
theorem embedded_files_stay_inside {quote : String → String} {files : List EmbeddedFile} {set : Bool} {ptr : String}
    (valid : validateEmbeddedFiles quote files set ptr = [])
    (accepted : ∀ f ∈ files, ∃ name, embeddedFileName quote f = .ok name) (dir : WorkDir) (cred : Option Credential)
    (data : EmbeddedFile → Text) (io : EmbeddedFile → Answers) {tree : FileTree}
    (hhome : IsHome (clean dir.path) tree) :
    StaysInside quote dir cred data io files tree ↔ ¬ TakesHome (clean dir.path) io files tree := by
  refine ⟨fun h => ?_, writeEmbeddedFiles_inside valid (fun f hf => ⟨hf, accepted f hf⟩) hhome⟩
  rintro ⟨hroot, hempty, f, hf, hdot, hr⟩
  obtain ⟨l, rfl⟩ : ∃ l, files = f :: l := ⟨_, (cons_head?_tail hf).symm⟩
  obtain ⟨name, hname⟩ := accepted f mem_cons_self
  have hjoin := join_embeddedFileName valid mem_cons_self hname dir
  rw [if_pos hdot] at hjoin
  -- the directory is taken by the first file and no later one makes it again
  have gone : (writeEmbeddedFiles quote dir cred data io (f :: l) tree).2.lookup (clean dir.path) ≠
      some .directory := by
    refine Yields.bind (R := fun _ (t : FileTree) => t.lookup (clean dir.path) ≠ some .directory)
      (Q := fun _ (t : FileTree) => t.lookup (clean dir.path) ≠ some .directory) ?_ (fun _ t ht => ?_) fun _ _ ht => ht
    · show (writeEmbeddedFile quote dir cred data io f tree).2.lookup _ ≠ _
      unfold writeEmbeddedFile
      rw [hname]
      dsimp only
      rw [hjoin]
      exact writeFileFchown_takes hroot hr hempty
    · refine Keeps.each (I := fun t : FileTree => t.lookup (clean dir.path) ≠ some .directory)
        (fun g t ht => ?_) l t ht
      unfold writeEmbeddedFile
      cases embeddedFileName quote g with
      | error text => exact ht
      | ok name => exact writeFileFchown_no_directory t ht
  refine gone ((h.2 (clean dir.path) fun g _ name _ e => ?_).trans hhome.here)
  have := congrArg List.length e
  simp at this

def namedFile (filename : String) : EmbeddedFile := ⟨"run", filename, true, "x", .text, false, ""⟩
def tmp : WorkDir := ⟨"/tmp/".toList, rfl⟩
def tmpTree : FileTree := AList.insert [] .directory (AList.insert ["tmp".toList] .directory ∅)
def allDone : Answers := ⟨false, false, none, false⟩

theorem embedded_files_stay_inside_run :
    (writeEmbeddedFiles String.quote tmp none (·.data.toList) (fun _ => allDone)
      [namedFile "run.sh"] tmpTree).2.lookup
      ["tmp".toList] = some .directory := by
  have valid : validateEmbeddedFiles String.quote [namedFile "run.sh"] true "" = [] := by decide +kernel
  have name : embeddedFileName String.quote (namedFile "run.sh") = .ok "run.sh".toList := by decide +kernel
  have hclean : clean tmp.path = ["tmp".toList] := by decide +kernel
  have hhome : IsHome (clean tmp.path) tmpTree := ⟨by decide +kernel, by decide +kernel⟩
  have inside := (embedded_files_stay_inside valid (forall_mem_singleton.mpr ⟨_, name⟩) tmp
    none (·.data.toList) (fun _ => allDone) hhome).mpr fun ⟨_, _, f, hf, hdot, _⟩ => by
      cases hf
      exact absurd hdot (by decide +kernel)
  refine (inside.2 ["tmp".toList] fun f hf n _ => ?_).trans (by decide +kernel)
  simp [hclean]

theorem dot_replaces_directory :
    validateEmbeddedFiles String.quote [namedFile "."] true "" = [] ∧
    embeddedFileName String.quote (namedFile ".") = .ok ".".toList ∧ tmp.join ".".toList = clean tmp.path ∧
      (writeEmbeddedFiles String.quote tmp none (·.data.toList) (fun _ => allDone) [namedFile "."] tmpTree).2.lookup
        (clean tmp.path) = some (.file "x".toList 0o640 none) := by
  decide +kernel

end Sqi.Worker
