import FormFlow.Table
import FormFlow.Text.Quoted

/-!
# Working directories

A directory holds folders and text files.  A path is taken from the working directory on: its names are
followed one by one, and two points lead up.

## Principal results

* `Path.ofString_parts`, `Path.slash_not_mem` — the names of a path are neither empty nor a single point, and
  hold no slash;
* `Path.parts_append` — the names of two paths with a slash between them;
* `content?_setFile` — a file that was set has its new content;
* `locate_putFile` — a file that was written is found under its path, with the text written.
-/

namespace FormFlow

/-! ## Paths -/

/-- A path: the slashes that it starts with, and the names in it. -/
structure Path where
  root : String
  parts : List String
deriving DecidableEq

namespace Path

/-- The texts between separators. -/
def splitAt (separator : Char) : List Char → List (List Char)
  | [] => [[]]
  | c :: cs =>
    match splitAt separator cs with
    | [] => [[c]]
    | first :: rest => if c = separator then [] :: first :: rest else (c :: first) :: rest

theorem splitAt_ne_nil (separator : Char) (cs : List Char) : splitAt separator cs ≠ [] := by
  cases cs with
  | nil => simp [splitAt]
  | cons c cs =>
    rw [splitAt]
    split
    · simp
    · split <;> simp

/-- A separator splits what is before it from what is behind it. -/
theorem splitAt_append (separator : Char) (front back : List Char) :
    splitAt separator (front ++ separator :: back) = splitAt separator front ++ splitAt separator back := by
  induction front with
  | nil =>
    obtain ⟨first, rest, h⟩ := List.exists_cons_of_ne_nil (splitAt_ne_nil separator back)
    simp [splitAt, h]
  | cons c front ih =>
    obtain ⟨first, rest, h⟩ := List.exists_cons_of_ne_nil (splitAt_ne_nil separator front)
    rw [List.cons_append, splitAt, splitAt, ih, h]
    by_cases hc : c = separator <;> simp [hc]

theorem not_mem_of_mem_splitAt {separator : Char} {cs piece : List Char}
    (h : piece ∈ splitAt separator cs) : separator ∉ piece := by
  induction cs generalizing piece with
  | nil =>
    cases List.mem_singleton.1 h
    exact List.not_mem_nil
  | cons c cs ih =>
    obtain ⟨first, rest, hsplit⟩ := List.exists_cons_of_ne_nil (splitAt_ne_nil separator cs)
    rw [hsplit] at ih
    rw [splitAt, hsplit] at h
    dsimp only at h
    split at h
    · rcases List.mem_cons.1 h with rfl | h
      · exact List.not_mem_nil
      · exact ih h
    · rename_i hc
      rcases List.mem_cons.1 h with rfl | h
      · rw [List.mem_cons, not_or]
        exact ⟨Ne.symm hc, ih (List.mem_cons_self ..)⟩
      · exact ih (List.mem_cons_of_mem _ h)

/-- A text without a separator is a single piece. -/
theorem splitAt_of_not_mem {separator : Char} {cs : List Char} (h : separator ∉ cs) :
    splitAt separator cs = [cs] := by
  induction cs with
  | nil => rfl
  | cons c cs ih =>
    rw [List.mem_cons, not_or] at h
    rw [splitAt, ih h.2]
    exact if_neg (Ne.symm h.1)

/-- A name that leads somewhere. -/
def isName (name : String) : Bool := name ≠ "" && name ≠ "."

/-- The slashes that count at the start of a path: two are kept, any other number is one. -/
def rootOf (cs : List Char) : String :=
  match (cs.takeWhile (· = '/')).length with
  | 0 => ""
  | 2 => "//"
  | _ => "/"

/-- Read a path; repeated slashes and single points do not count. -/
def ofString (text : String) : Path :=
  ⟨rootOf text.toList, ((splitAt '/' text.toList).map String.ofList).filter isName⟩

/-- The names of a path are neither empty nor a single point. -/
theorem ofString_parts {text name : String} (h : name ∈ (ofString text).parts) :
    name ≠ "" ∧ name ≠ "." := by
  have := (List.mem_filter.1 h).2
  simpa [isName] using this

theorem slash_not_mem {text name : String} (h : name ∈ (ofString text).parts) : '/' ∉ name.toList := by
  obtain ⟨piece, hpiece, rfl⟩ := List.mem_map.1 (List.mem_filter.1 h).1
  rw [String.toList_ofList]
  exact not_mem_of_mem_splitAt hpiece

/-- The names of two paths with a slash between them. -/
theorem parts_append (front back : String) :
    (ofString (front ++ "/" ++ back)).parts = (ofString front).parts ++ (ofString back).parts := by
  have hslash : "/".toList = ['/'] := rfl
  unfold ofString
  dsimp only
  rw [String.toList_append, String.toList_append, hslash, List.append_assoc, List.singleton_append,
    splitAt_append, List.map_append, List.filter_append]

/-- A path is relative when it does not start with a slash. -/
theorem root_eq_empty_iff {text : String} : (ofString text).root = "" ↔ text.toList.head? ≠ some '/' := by
  show rootOf text.toList = "" ↔ _
  unfold rootOf
  cases text.toList with
  | nil => simp
  | cons c cs =>
    by_cases hc : c = '/'
    · simp only [hc, List.takeWhile_cons, decide_true, if_true, List.length_cons, List.head?_cons]
      split <;> simp_all
    · simp [hc]

/-- A path as text. -/
def text (p : Path) : String :=
  if p.root = "" ∧ p.parts = [] then "." else p.root ++ String.intercalate "/" p.parts

/-- A path taken from another one on. -/
def join (p q : Path) : Path := if q.root = "" then ⟨p.root, p.parts ++ q.parts⟩ else q

/-- The path without its last name. -/
def parent (p : Path) : Path := ⟨p.root, p.parts.dropLast⟩

end Path

/-! ## Directories -/

/-- The folders and files that are known, each under the names that lead to it from the working
directory on.  Names that start with two points lead out of it, and so does a first name of slashes. -/
structure Directory where
  folders : List (List String)
  files : List (List String × String)
deriving DecidableEq

/-- Where a path leads. -/
inductive Location where
  | folder
  /-- To a file, under the names that lead to it. -/
  | file (names : List String) (content : String)
  /-- To a free place in a folder. -/
  | free (names : List String)
  /-- Through a folder that does not exist. -/
  | missing
  /-- Through a file. -/
  | blocked
deriving DecidableEq

/-- Why a file cannot be written. -/
inductive FileError where
  | notFound (path : String)
  | occupied (path : String)
  | notFolder (path : String)
  | isFolder (path : String)
  | nullCharacter
deriving DecidableEq

/-- The wording of a fault. -/
def FileError.message : FileError → String
  | notFound path => s!"[Errno 2] No such file or directory: {Text.quoted path}"
  | occupied path => s!"[Errno 17] File exists: {Text.quoted path}"
  | notFolder path => s!"[Errno 20] Not a directory: {Text.quoted path}"
  | isFolder path => s!"[Errno 21] Is a directory: {Text.quoted path}"
  | nullCharacter => "embedded null byte"

namespace Directory

/-- The names that lead one step up. -/
def up (names : List String) : List String :=
  match names.getLast? with
  | none | some ".." => names ++ [".."]
  | some "/" | some "//" => names
  | some _ => names.dropLast

/-- The names of a step: two points lead up. -/
def step (names : List String) (name : String) : List String :=
  if name = ".." then up names else names ++ [name]

/-- The names at which a path starts. -/
def startOf (p : Path) : List String := if p.root = "" then [] else [p.root]

/-- A folder; the working directory, the folders above it and the root are always there. -/
def hasFolder (d : Directory) (names : List String) : Bool :=
  names.all (fun name => [".", "..", "/", "//"].contains name) || d.folders.contains names

/-- The content of a file. -/
def content? (d : Directory) (names : List String) : Option String :=
  (d.files.find? fun f => f.1 = names).map (·.2)

/-- The directory with a file under given names, in the place of the one that may stand there. -/
def setFile (d : Directory) (names : List String) (content : String) : Directory :=
  { d with files := d.files.filter (fun f => f.1 ≠ names) ++ [(names, content)] }

theorem content?_setFile (d : Directory) (names : List String) (content : String) :
    (d.setFile names content).content? names = some content := by
  have h : (d.files.filter fun f => f.1 ≠ names).find? (fun f => f.1 = names) = none :=
    List.find?_eq_none.2 fun f hf => by simpa using (List.mem_filter.1 hf).2
  rw [content?, setFile, List.find?_append, h]
  simp

theorem hasFolder_setFile (d : Directory) (names folder : List String) (content : String) :
    (d.setFile names content).hasFolder folder = d.hasFolder folder := rfl

/-- Follow names from a place that is a folder. -/
def follow (d : Directory) : (place : List String) → (names : List String) → Location
  | _, [] => .folder
  | place, name :: rest =>
    let next := step place name
    if name = ".." ∨ d.hasFolder next then d.follow next rest
    else
      match d.content? next, rest with
      | some content, [] => .file next content
      | some _, _ :: _ => .blocked
      | none, [] => .free next
      | none, _ :: _ => .missing

/-- Where a path leads. -/
def locate (d : Directory) (p : Path) : Location := d.follow (startOf p) p.parts

/-- A text with a single character for each line end, however it is written. -/
def oneLineEnd : List Char → List Char
  | '\r' :: '\n' :: cs => '\n' :: oneLineEnd cs
  | '\r' :: cs => '\n' :: oneLineEnd cs
  | c :: cs => c :: oneLineEnd cs
  | [] => []

/-- The text of a file. -/
def readFile? (d : Directory) (p : Path) : Option String :=
  match d.locate p with
  | .file _ content => some (String.ofList (oneLineEnd content.toList))
  | _ => none

/-- All the places that names lead through, the last one apart. -/
def placesBefore : (place : List String) → (names : List String) → List (List String)
  | _, [] | _, [_] => []
  | place, name :: rest => step place name :: placesBefore (step place name) rest

/-- The directory with one file more, and the folders that lead to it. -/
def addFile (d : Directory) (p : Path) (content : String) : Directory :=
  { d with folders := d.folders ++ placesBefore (startOf p) p.parts }.setFile
    (p.parts.foldl step (startOf p)) content

/-- The directory that holds given files. -/
def ofFiles (files : Table String) : Directory :=
  files.foldl (fun d f => d.addFile (.ofString f.1) f.2) ⟨[], []⟩

/-- Make one folder whose parent exists; a folder that exists is left as it is. -/
def makeFolder (d : Directory) (p : Path) : Except FileError Directory :=
  match d.locate p with
  | .folder => .ok d
  | .free names => .ok { d with folders := d.folders ++ [names] }
  | .file .. => .error (.occupied p.text)
  | .blocked => .error (.notFolder p.text)
  | .missing => .error (.notFound p.text)

/-- Make a folder and the folders that lead to it; `depth` is the number of names of the path. -/
def makeFoldersTo (d : Directory) : (depth : Nat) → Path → Except FileError Directory
  | 0, p => d.makeFolder p
  | depth + 1, p =>
    match d.locate p with
    | .missing => do
      let d ← d.makeFoldersTo depth p.parent
      d.makeFolder p
    | _ => d.makeFolder p

/-- Make a folder and the folders that lead to it. -/
def makeFolders (d : Directory) (p : Path) : Except FileError Directory :=
  if p.parts.any fun name => name.toList.contains '\x00' then .error .nullCharacter
  else d.makeFoldersTo p.parts.length p

/-- Write a file into a folder that exists. -/
def putFile (d : Directory) (p : Path) (content : String) : Except FileError Directory :=
  match d.locate p with
  | .free names | .file names _ => .ok (d.setFile names content)
  | .folder => .error (.isFolder p.text)
  | .blocked => .error (.notFolder p.text)
  | .missing => .error (.notFound p.text)

/-- Names that lead to a file, or to a free place, lead to the file that is set there. -/
theorem follow_setFile {d : Directory} {content : String} {target place names : List String}
    (h : d.follow place names = .free target ∨ ∃ old, d.follow place names = .file target old) :
    (d.setFile target content).follow place names = .file target content := by
  have hfolder := fun folder => hasFolder_setFile d target folder content
  induction names generalizing place with
  | nil => simp [follow] at h
  | cons name rest ih =>
    unfold follow at h ⊢
    simp only [hfolder]
    by_cases hstep : name = ".." ∨ d.hasFolder (step place name) = true
    · simp only [if_pos hstep] at h ⊢
      exact ih h
    · simp only [if_neg hstep] at h ⊢
      cases rest with
      | nil =>
        have hplace : step place name = target := by
          split at h <;> simp_all
        simp [hplace, content?_setFile]
      | cons _ _ => split at h <;> simp_all

/-- A file that was written is found under its path. -/
theorem locate_putFile {d e : Directory} {p : Path} {content : String}
    (h : d.putFile p content = .ok e) : ∃ names, e.locate p = .file names content := by
  unfold putFile at h
  split at h <;> simp only [Except.ok.injEq, reduceCtorEq] at h <;> subst h
  · rename_i names hl
    exact ⟨names, follow_setFile (.inl hl)⟩
  · rename_i names old hl
    exact ⟨names, follow_setFile (.inr ⟨old, hl⟩)⟩

/-- Names as the text of a path. -/
def namesText : List String → String
  | "/" :: names => "/" ++ String.intercalate "/" names
  | "//" :: names => "//" ++ String.intercalate "/" names
  | names => String.intercalate "/" names

/-- The files of a directory that another one does not have with the same content, by the texts of
their paths. -/
def changedFiles (before after : Directory) : Table String :=
  (after.files.filter fun f => before.content? f.1 ≠ some f.2).map fun f => (namesText f.1, f.2)

/-- Names that stay within the working directory. -/
def isInside (names : List String) : Bool :=
  match names.head? with
  | none | some ".." | some "/" | some "//" => false
  | some _ => true

/-- The files within the working directory that another directory does not have at all, by the texts of
their paths. -/
def newFiles (before after : Directory) : Table String :=
  (after.files.filter fun f => isInside f.1 && (before.content? f.1).isNone).map fun f =>
    (namesText f.1, f.2)

end Directory

end FormFlow
