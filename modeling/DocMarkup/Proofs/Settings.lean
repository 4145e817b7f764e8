import Mathlib.Data.List.Sort
import DocMarkup.Proofs.Number.Rounding
import DocMarkup.Settings

/-!
Settings are checked exactly.  What each setting may be is said in a schema, apart from the checks:
raw settings are accepted just when they keep to it, what is accepted is kept, and otherwise every
path that does not keep to it is reported, in the order of the schema.
-/

namespace DocMarkup.Settings

/-! ### What settings may be -/

/-- What a single value may be. -/
inductive Constraint where
  | flag
  | text
  /-- A dot with one letter or digit behind it, or more of them. -/
  | extension
  | word (options : List String)
  | whole (least most : Nat)

/-- Whether a value is what it may be. -/
def Constraint.fits : Constraint → RawValue → Bool
  | flag, .bool _ => true
  | text, .string _ => true
  | extension, .string s =>
    s.head? == some (unit '.') && !s.tail.isEmpty &&
      s.tail.all fun u => CodeUnit.isLetter u || CodeUnit.isDigit u
  | word options, .string s => options.any (units · == s)
  | whole least most, .number (.whole (.finite n)) => least ≤ n && n ≤ most
  | _, _ => false

/-- How the values of a setting are put together. -/
inductive Form where
  | one (value : Constraint)
  | list (item : Constraint)
  | record (item : Constraint)

/-- Whether a setting keeps to its form. -/
def Form.Allows : Form → RawValue → Prop
  | one value, raw => value.fits raw
  | list item, .array items => ∀ raw ∈ items, item.fits raw
  | record item, .object entries => ∀ entry ∈ entries, item.fits entry.2
  | _, _ => False

/-- The paths at which a setting does not keep to its form: its own, or those of elements of a list
and of entries of a record. -/
def Form.offending : Form → List Text → RawValue → List (List Text)
  | one value, path, raw => if value.fits raw then [] else [path]
  | list item, path, .array items =>
    (items.zipIdx.filter fun (raw, _) => !item.fits raw).map fun (_, index) =>
      path ++ [unitsOfNat index]
  | record item, path, .object entries =>
    ((recordOrder entries).filter fun (_, raw) => !item.fits raw).map fun (name, _) =>
      path ++ [name]
  | _, path, _ => [path]

/-- A setting with what it may be and what it is when it is absent. -/
structure Declared where
  name : String
  form : Form
  standard : RawValue

namespace Declared

def aliases : Declared := ⟨"aliases", .list .text, .array []⟩

def autolink : Declared := ⟨"autolinkSupport", .one .flag, .bool true⟩

def internalDocs : Declared := ⟨"internalDocs", .one .flag, .bool false⟩

def fileExtension : Declared :=
  ⟨"htmlFileExtension", .one .extension, .string (units ".html")⟩

def mathJax : Declared := ⟨"useMathJax", .one .flag, .bool false⟩

def imageFormat : Declared :=
  ⟨"dotImageFormat", .one (.word ["png", "svg", "jpg", "gif"]), .string (units "png")⟩

def externalInWindow : Declared := ⟨"externalLinksInWindow", .one .flag, .bool false⟩

def tagFiles : Declared := ⟨"tagFileLocations", .record .text, .object []⟩

def bullets : Declared :=
  ⟨"markdownListMarkers", .list (.word ["-", "*", "+"]),
    .array [.string (units "-"), .string (units "*"), .string (units "+")]⟩

def tabSize : Declared := ⟨"tabSize", .one (.whole 1 16), .number (.whole (.finite 4))⟩

def outputDirectory : Declared := ⟨"outputDirectory", .one .text, .string (units "html")⟩

end Declared

/-- The settings that are known, in order. -/
def schema : List Declared :=
  [.aliases, .autolink, .internalDocs, .fileExtension, .mathJax, .imageFormat, .externalInWindow,
    .tagFiles, .bullets, .tabSize, .outputDirectory]

/-- What is given for a setting. -/
def given (raw : RawValue) (name : String) : Option RawValue :=
  match raw with
  | .object entries => (entries.find? (·.1 == units name)).map (·.2)
  | _ => none

/-- The paths at which a setting does not keep to its form; there are none when it is absent. -/
def Declared.offending (d : Declared) (raw : RawValue) : List (List Text) :=
  match given raw d.name with
  | some value => d.form.offending [units d.name] value
  | none => []

/-- The paths at which raw settings do not keep to the schema, in its order. -/
def offendingPaths (raw : RawValue) : List (List Text) :=
  match raw with
  | .object _ => schema.flatMap fun d => d.offending raw
  | _ => [[]]

/-- A given value as settings hold it: a record has its own order, and one name is not kept. -/
def stored : RawValue → RawValue
  | .object entries => .object ((recordOrder entries).filter (·.1 != prototypeName))
  | raw => raw

/-- What a setting is: what is given, as it is stored, or its default. -/
def Declared.value (d : Declared) (raw : RawValue) : RawValue :=
  ((given raw d.name).map stored).getD d.standard

/-- A list with its elements written in some way. -/
def writeList {α : Type} (write : α → RawValue) (items : List α) : RawValue :=
  .array (items.map write)

/-- A record of strings. -/
def writeRecord (entries : List (Text × Text)) : RawValue :=
  .object (entries.map fun (name, s) => (name, .string s))

/-- A word by its name. -/
def writeWord {α : Type} (name : α → String) (value : α) : RawValue := .string (units (name value))

/-- A natural number. -/
def writeWhole (n : Nat) : RawValue := .number (.whole (.finite n))

/-- Issues that report some paths, in their order: one issue or more for each path, and none of
another one. -/
inductive Reports : List (List Text) → List Issue → Prop
  | nil : Reports [] []
  | path {path : List Text} {paths : List (List Text)} {group issues : List Issue}
      (hsome : group ≠ []) (hpath : ∀ issue ∈ group, issue.path = path)
      (hrest : Reports paths issues) : Reports (path :: paths) (group ++ issues)

theorem Reports.append {paths more : List (List Text)} {issues others : List Issue}
    (h : Reports paths issues) (hmore : Reports more others) :
    Reports (paths ++ more) (issues ++ others) := by
  induction h with
  | nil => exact hmore
  | path hsome hpath _ ih =>
      rw [List.cons_append, List.append_assoc]
      exact .path hsome hpath ih

theorem Reports.single {path : List Text} {group : List Issue} (hsome : group ≠ [])
    (hpath : ∀ issue ∈ group, issue.path = path) : Reports [path] group := by
  have h := Reports.path hsome hpath .nil
  rwa [List.append_nil] at h

theorem Reports.eq_nil_iff {paths : List (List Text)} {issues : List Issue}
    (h : Reports paths issues) : issues = [] ↔ paths = [] := by
  cases h with
  | nil => simp
  | path hsome => simp [hsome]

theorem reports_wrong {α : Type} [Inhabited α] (path : List Text) (fault : Fault) :
    Reports [path] (wrong path fault : α × List Issue).2 :=
  .single (List.cons_ne_nil _ _) (List.forall_mem_singleton.2 rfl)

theorem reports_filter {β : Type} {bad : β → Bool} {path : β → List Text}
    {issues : β → List Issue} {items : List β}
    (hfine : ∀ item ∈ items, bad item = false → issues item = [])
    (hbad : ∀ item ∈ items, bad item = true →
      issues item ≠ [] ∧ ∀ issue ∈ issues item, issue.path = path item) :
    Reports ((items.filter bad).map path) (items.flatMap issues) := by
  induction items with
  | nil => exact .nil
  | cons item items ih =>
      have hrest := ih (fun other hother => hfine other (List.mem_cons_of_mem _ hother))
        (fun other hother => hbad other (List.mem_cons_of_mem _ hother))
      rw [List.flatMap_cons]
      cases hitem : bad item with
      | false =>
          rw [List.filter_cons_of_neg (by simp [hitem]), hfine item List.mem_cons_self hitem]
          exact hrest
      | true =>
          rw [List.filter_cons_of_pos hitem]
          obtain ⟨hsome, hpath⟩ := hbad item List.mem_cons_self hitem
          exact .path hsome hpath hrest

/-! ### The order of records -/

theorem recordOrder_perm (entries : List (Text × RawValue)) : (recordOrder entries).Perm entries :=
  ((List.mergeSort_perm ..).append_right _).trans (List.filter_append_perm ..)

theorem offending_eq_nil_iff (form : Form) (path : List Text) (raw : RawValue) :
    form.offending path raw = [] ↔ form.Allows raw := by
  cases form with
  | one value => cases h : value.fits raw <;> simp [Form.offending, Form.Allows, h]
  | list item =>
      cases raw with
      | array items =>
          have hitems : items = items.zipIdx.map Prod.fst := (List.zipIdx_map_fst ..).symm
          rw [Form.offending, Form.Allows, List.map_eq_nil_iff, List.filter_eq_nil_iff]
          conv => rhs; rw [hitems, List.forall_mem_map]
          simp
      | _ => simp [Form.offending, Form.Allows]
  | record item =>
      cases raw with
      | object entries =>
          rw [Form.offending, Form.Allows, List.map_eq_nil_iff, List.filter_eq_nil_iff]
          simp [(recordOrder_perm entries).mem_iff]
      | _ => simp [Form.offending, Form.Allows]

/-! ### Single values -/

variable {α : Type}

/-- A check tells the values that may be from those that may not, reads the former as they are
written, and reports the latter at their path. -/
structure Tests (value : Constraint) (check : Check α) (write : α → RawValue) : Prop where
  fine : ∀ path raw, value.fits raw → (check path raw).2 = [] ∧ write (check path raw).1 = raw
  faulty : ∀ path raw, value.fits raw = false →
    (check path raw).2 ≠ [] ∧ ∀ issue ∈ (check path raw).2, issue.path = path
  single : ∀ entries, value.fits (.object entries) = false

/-- A check keeps to a form: it reports what does not keep to it, and what does is read as it is
stored, and read again from there. -/
structure Decides (form : Form) (check : Check α) (write : α → RawValue) : Prop where
  reports : ∀ path raw, Reports (form.offending path raw) (check path raw).2
  keeps : ∀ path raw, form.Allows raw → write (check path raw).1 = stored raw
  again : ∀ path raw, form.Allows raw → check path (stored raw) = check path raw

namespace Tests

variable {value : Constraint} {check : Check α} {write : α → RawValue}

/-- A single value is stored as it is given. -/
theorem stored_eq (h : Tests value check write) {raw : RawValue} (hraw : value.fits raw) :
    stored raw = raw := by
  cases raw with
  | object entries =>
      rw [h.single] at hraw
      cases hraw
  | _ => rfl

theorem one (h : Tests value check write) : Decides (.one value) check write where
  reports path raw := by
    cases hraw : value.fits raw with
    | true =>
        rw [Form.offending, if_pos hraw, (h.fine path raw hraw).1]
        exact .nil
    | false =>
        obtain ⟨hsome, hpath⟩ := h.faulty path raw hraw
        rw [Form.offending, if_neg (by simp [hraw])]
        exact .single hsome hpath
  keeps path raw hraw := (h.fine path raw hraw).2.trans (h.stored_eq hraw).symm
  again path raw hraw := by rw [h.stored_eq hraw]

theorem checkItems_eq (check : Check α) (path : List Text) (index : Nat) (items : List RawValue) :
    checkItems check path index items =
      ((items.zipIdx index).map fun (raw, i) => (check (path ++ [unitsOfNat i]) raw).1,
       (items.zipIdx index).flatMap fun (raw, i) => (check (path ++ [unitsOfNat i]) raw).2) := by
  induction items generalizing index with
  | nil => rfl
  | cons raw rest ih => simp [checkItems, ih]

theorem list (h : Tests value check write) :
    Decides (.list value) (checkList check) (writeList write) where
  reports path raw := by
    cases raw with
    | array items =>
        rw [checkList, checkItems_eq, Form.offending]
        refine reports_filter (fun item _ hitem => ?_) fun item _ hitem => ?_
        · exact (h.fine _ _ (by simpa using hitem)).1
        · exact h.faulty _ _ (by simpa using hitem)
    | _ => exact reports_wrong ..
  keeps path raw hraw := by
    cases raw with
    | array items =>
        have hread : ∀ entry ∈ items.zipIdx,
            write (check (path ++ [unitsOfNat entry.2]) entry.1).1 = entry.1 := by
          intro entry hentry
          exact (h.fine _ _ (hraw entry.1 (List.fst_mem_of_mem_zipIdx hentry))).2
        change RawValue.array (List.map write (checkItems check path 0 items).1) = .array items
        rw [checkItems_eq, List.map_map]
        exact congrArg RawValue.array
          ((List.map_congr_left hread).trans (List.zipIdx_map_fst 0 items))
    | _ => cases hraw
  again path raw hraw := by
    cases raw with
    | object entries => cases hraw
    | _ => rfl

end Tests

theorem setting_eq (entries : List (Text × RawValue)) (name : String) (absent : α)
    (check : Check α) :
    setting entries name absent check =
      match given (.object entries) name with
      | some raw => check [units name] raw
      | none => (absent, []) := by
  unfold setting given
  dsimp only
  cases hfound : entries.find? fun entry => entry.1 == units name with
  | none => rfl
  | some entry =>
      have hname := List.find?_some hfound
      rw [beq_iff_eq] at hname
      simp [hname]

/-- How a setting is read: what is wrong with it is reported, and when nothing is, its value is
read, and read again from where it is stored. -/
structure Reads (d : Declared) (raw : RawValue) (check : Check α) (write : α → RawValue)
    (read : α × List Issue) : Prop where
  reports : Reports (d.offending raw) read.2
  keeps : read.2 = [] → write read.1 = d.value raw
  again : read.2 = [] → check [units d.name] (d.value raw) = read

theorem Decides.reads (d : Declared) {check : Check α} {write : α → RawValue}
    (h : Decides d.form check write) (absent : α) (hwrite : write absent = d.standard)
    (hcheck : check [units d.name] d.standard = (absent, [])) (entries : List (Text × RawValue)) :
    Reads d (.object entries) check write (setting entries d.name absent check) := by
  cases hgiven : given (.object entries) d.name with
  | none =>
      have hoffending : d.offending (.object entries) = [] := by rw [Declared.offending, hgiven]
      have hvalue : d.value (.object entries) = d.standard := by rw [Declared.value, hgiven]; rfl
      rw [setting_eq, hgiven]
      refine ⟨?_, fun _ => ?_, fun _ => ?_⟩
      · rw [hoffending]
        exact .nil
      · rw [hvalue]
        exact hwrite
      · rw [hvalue]
        exact hcheck
  | some raw =>
      have hoffending : d.offending (.object entries) = d.form.offending [units d.name] raw := by
        rw [Declared.offending, hgiven]
      have hvalue : d.value (.object entries) = stored raw := by rw [Declared.value, hgiven]; rfl
      have hreports := h.reports [units d.name] raw
      have hallowed (hfine : (check [units d.name] raw).2 = []) : d.form.Allows raw :=
        (offending_eq_nil_iff ..).1 (hreports.eq_nil_iff.1 hfine)
      rw [setting_eq, hgiven]
      refine ⟨?_, fun hfine => ?_, fun hfine => ?_⟩
      · rw [hoffending]
        exact hreports
      · rw [hvalue]
        exact h.keeps _ _ (hallowed hfine)
      · rw [hvalue]
        exact h.again _ _ (hallowed hfine)

/-- Settings as an object with one entry for each declared setting. -/
def object (value : Declared → RawValue) : RawValue :=
  .object (schema.map fun d => (units d.name, value d))

/-- What is read of every setting, with what is wrong with it. -/
structure Readings where
  aliases : List Text × List Issue
  autolink : Bool × List Issue
  internalDocs : Bool × List Issue
  fileExtension : Text × List Issue
  mathJax : Bool × List Issue
  imageFormat : ImageFormat × List Issue
  externalInWindow : Bool × List Issue
  tagFiles : List (Text × Text) × List Issue
  bullets : List Bullet × List Issue
  tabSize : Nat × List Issue
  outputDirectory : Text × List Issue

namespace Readings

def settings (r : Readings) : Settings where
  aliases := r.aliases.1
  autolink := r.autolink.1
  internalDocs := r.internalDocs.1
  fileExtension := r.fileExtension.1
  mathJax := r.mathJax.1
  imageFormat := r.imageFormat.1
  externalInWindow := r.externalInWindow.1
  tagFiles := r.tagFiles.1
  bullets := r.bullets.1
  tabSize := r.tabSize.1
  outputDirectory := r.outputDirectory.1

def issues (r : Readings) : List Issue :=
  r.aliases.2 ++ r.autolink.2 ++ r.internalDocs.2 ++ r.fileExtension.2 ++ r.mathJax.2 ++
    r.imageFormat.2 ++ r.externalInWindow.2 ++ r.tagFiles.2 ++ r.bullets.2 ++ r.tabSize.2 ++
    r.outputDirectory.2

end Readings

/-- Every setting is read as it is declared. -/
structure Readings.AreDeclared (r : Readings) (raw : RawValue) : Prop where
  aliases : Reads .aliases raw (checkList checkString) (writeList .string) r.aliases
  autolink : Reads .autolink raw checkBool .bool r.autolink
  internalDocs : Reads .internalDocs raw checkBool .bool r.internalDocs
  fileExtension : Reads .fileExtension raw checkExtension .string r.fileExtension
  mathJax : Reads .mathJax raw checkBool .bool r.mathJax
  imageFormat :
    Reads .imageFormat raw (checkWord [.png, .svg, .jpg, .gif] ImageFormat.name)
      (writeWord ImageFormat.name) r.imageFormat
  externalInWindow : Reads .externalInWindow raw checkBool .bool r.externalInWindow
  tagFiles : Reads .tagFiles raw checkRecord writeRecord r.tagFiles
  bullets :
    Reads .bullets raw (checkList (checkWord [.dash, .star, .plus] Bullet.name))
      (writeList (writeWord Bullet.name)) r.bullets
  tabSize : Reads .tabSize raw checkTabSize writeWhole r.tabSize
  outputDirectory : Reads .outputDirectory raw checkString .string r.outputDirectory

namespace Readings.AreDeclared

variable {r : Readings} {entries : List (Text × RawValue)}

theorem reports (h : r.AreDeclared (.object entries)) :
    Reports (offendingPaths (.object entries)) r.issues := by
  have hall := h.aliases.reports.append (h.autolink.reports.append (h.internalDocs.reports.append
    (h.fileExtension.reports.append (h.mathJax.reports.append (h.imageFormat.reports.append
      (h.externalInWindow.reports.append (h.tagFiles.reports.append (h.bullets.reports.append
        (h.tabSize.reports.append (h.outputDirectory.reports.append .nil))))))))))
  change Reports (schema.flatMap fun d => d.offending (.object entries)) _
  simpa only [schema, List.flatMap_cons, List.flatMap_nil, issues, List.append_assoc,
    List.append_nil] using hall

end Readings.AreDeclared

end DocMarkup.Settings
