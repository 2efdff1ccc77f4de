import ProtoSchema.Load
import ProtoSchema.Proofs.Reading
import ProtoSchema.Proofs.WrittenFiles

/-!
# Paths of schemas

The path of a schema is checked by its last name and then by what it names, and the bytes that are
compiled are those of the file that it names.

**The last name.** `LastName` says where it stands in a path: behind a slash or at the start, with
nothing behind it but slashes and single dots. A path that ends in two dots, or is nothing but
slashes and single dots, has none. How a path is cut into pieces does not enter into this.

**What a check looks at.** A check asks for directories and files, never for what a file holds. So
trees of one shape have the same things under each path (`SameShape.lookup`).

Results:
* `pathPieces_eq`: a path is cut at its slashes in one way;
* `fileName?_eq_some`, `extension?_eq_some`, `isSchemaPath_iff`: the name that is looked at, and
  what it has to end in;
* `schemaBytes_eq_error`, `schemaBytes_eq_ok`: the outcomes of the check;
* `SameShape.load_of_checkPath`: trees of one shape refuse the same paths;
* `load_by_path`: what loading comes to in every case.
-/
namespace ProtoSchema

open Text

/-! ## Pieces of paths -/

theorem exists_pathPieces (path : List Char) :
    ∃ first others, pathPieces path = first :: others ∧
      path = first ++ others.flatMap ('/' :: ·) ∧ ∀ piece ∈ first :: others, '/' ∉ piece := by
  induction path with
  | nil => exact ⟨[], [], rfl, rfl, by simp⟩
  | cons c cs ih =>
    obtain ⟨first, others, hpieces, hcs, hslash⟩ := ih
    by_cases hc : c = '/'
    · refine ⟨[], first :: others, by rw [pathPieces, if_pos hc, hpieces], ?_, ?_⟩
      · rw [hc, hcs, List.flatMap_cons]
        rfl
      · exact List.forall_mem_cons.2 ⟨List.not_mem_nil, hslash⟩
    · refine ⟨c :: first, others, by rw [pathPieces, if_neg hc, hpieces], by rw [hcs]; rfl, ?_⟩
      obtain ⟨hfirst, hothers⟩ := List.forall_mem_cons.1 hslash
      refine List.forall_mem_cons.2 ⟨fun hmem => ?_, hothers⟩
      rcases List.mem_cons.1 hmem with h | h
      · exact hc h.symm
      · exact hfirst h

theorem pathPieces_append_slash (front path : List Char) :
    pathPieces (front ++ '/' :: path) = pathPieces front ++ pathPieces path := by
  induction front with
  | nil => rfl
  | cons c cs ih =>
    obtain ⟨first, others, hpieces, -⟩ := exists_pathPieces cs
    rw [List.cons_append, pathPieces, pathPieces, ih, hpieces]
    split <;> rfl

theorem pathPieces_eq {first : Name} {others : List Name}
    (h : ∀ piece ∈ first :: others, '/' ∉ piece) :
    pathPieces (first ++ others.flatMap ('/' :: ·)) = first :: others := by
  have hone {path : List Char} (hpath : '/' ∉ path) : pathPieces path = [path] := by
    obtain ⟨first, others, hpieces, rfl, -⟩ := exists_pathPieces path
    cases others with
    | nil => rw [hpieces, List.flatMap_nil, List.append_nil]
    | cons piece others => exact absurd (by simp) hpath
  induction others generalizing first with
  | nil => simpa using hone (h first List.mem_cons_self)
  | cons piece others ih =>
    obtain ⟨hfirst, hothers⟩ := List.forall_mem_cons.1 h
    rw [List.flatMap_cons, List.cons_append, pathPieces_append_slash, hone hfirst, ih hothers]
    rfl

namespace PathStep

theorem ofPiece_eq_stay {piece : Name} : ofPiece piece = .stay ↔ piece = [] ∨ piece = ['.'] := by
  unfold ofPiece
  split <;> simp_all

theorem ofPiece_eq_down {piece name : Name} :
    ofPiece piece = .down name ↔
      piece = name ∧ name ≠ [] ∧ name ≠ ['.'] ∧ name ≠ ['.', '.'] := by
  unfold ofPiece
  constructor
  · intro h
    split at h
    · cases h
    · cases h
    · cases h
    · next hnil hdot hdots =>
      obtain rfl := PathStep.down.inj h
      exact ⟨rfl, hnil, hdot, hdots⟩
  · rintro ⟨rfl, hnil, hdot, hdots⟩
    split
    · exact absurd rfl hnil
    · exact absurd rfl hdot
    · exact absurd rfl hdots
    · rfl

end PathStep

/-! ## The last name -/

/-- A piece of a path that names something: it is not empty and not made of one or two dots. -/
structure IsPathName (name : Name) : Prop where
  no_slash : '/' ∉ name
  ne_nil : name ≠ []
  ne_dot : name ≠ ['.']
  ne_dots : name ≠ ['.', '.']

/-- What may stand behind the last name of a path: slashes, and single dots behind them. -/
inductive Trailing : List Char → Prop
  | nil : Trailing []
  | slash {cs : List Char} : Trailing cs → Trailing ('/' :: cs)
  | dot {cs : List Char} : Trailing cs → Trailing ('/' :: '.' :: cs)

/-- The last name of a path. It stands at the start or behind a slash. -/
inductive LastName : List Char → Name → Prop
  | alone {name after : List Char} : IsPathName name → Trailing after →
      LastName (name ++ after) name
  | behind {front name after : List Char} : IsPathName name → Trailing after →
      LastName (front ++ '/' :: (name ++ after)) name

/-- Behind the last name all pieces of a path are empty or single dots. -/
theorem trailing_iff {after : List Char} :
    Trailing after ↔
      ∃ pieces : List Name, after = pieces.flatMap ('/' :: ·) ∧
        ∀ piece ∈ pieces, piece = [] ∨ piece = ['.'] := by
  constructor
  · intro h
    induction h with
    | nil => exact ⟨[], rfl, by simp⟩
    | slash _ ih =>
      obtain ⟨pieces, rfl, hpieces⟩ := ih
      exact ⟨[] :: pieces, rfl, List.forall_mem_cons.2 ⟨.inl rfl, hpieces⟩⟩
    | dot _ ih =>
      obtain ⟨pieces, rfl, hpieces⟩ := ih
      exact ⟨['.'] :: pieces, rfl, List.forall_mem_cons.2 ⟨.inr rfl, hpieces⟩⟩
  · rintro ⟨pieces, rfl, hpieces⟩
    induction pieces with
    | nil => exact .nil
    | cons piece pieces ih =>
      obtain ⟨hpiece, hrest⟩ := List.forall_mem_cons.1 hpieces
      rcases hpiece with rfl | rfl
      · exact .slash (ih hrest)
      · exact .dot (ih hrest)

/-- The name that is looked at is the last piece that is no single dot and not empty. -/
theorem fileName?_eq_some_iff_pieces {path : List Char} {name : Name} :
    fileName? path = some name ↔
      ∃ earlier later, pathPieces path = earlier ++ name :: later ∧
        PathStep.ofPiece name = .down name ∧ ∀ piece ∈ later, piece = [] ∨ piece = ['.'] := by
  have hlast : fileName? path = some name ↔
      ((pathSteps path).filter (· ≠ .stay)).getLast? = some (.down name) := by
    unfold fileName?
    split <;> simp_all
  rw [hlast, getLast?_filter_eq_some, pathSteps]
  simp only [List.map_eq_append_iff, List.map_eq_cons_iff]
  constructor
  · rintro ⟨_, _, ⟨earlier, _, hpieces, rfl, piece, later, rfl, hpiece, rfl⟩, -, hlater⟩
    obtain ⟨rfl, -⟩ := PathStep.ofPiece_eq_down.1 hpiece
    refine ⟨earlier, later, hpieces, hpiece, fun other hother => ?_⟩
    exact PathStep.ofPiece_eq_stay.1 (by simpa using hlater _ (List.mem_map_of_mem hother))
  · rintro ⟨earlier, later, hpieces, hname, hlater⟩
    refine ⟨_, _, ⟨earlier, _, hpieces, rfl, name, later, rfl, hname, rfl⟩, rfl, ?_⟩
    intro step hstep
    obtain ⟨piece, hpiece, rfl⟩ := List.mem_map.1 hstep
    simp [PathStep.ofPiece_eq_stay.2 (hlater piece hpiece)]

theorem pathPieces_name {name after : List Char} (hname : IsPathName name) (h : Trailing after) :
    ∃ later, pathPieces (name ++ after) = name :: later ∧
      ∀ piece ∈ later, piece = [] ∨ piece = ['.'] := by
  obtain ⟨later, rfl, hlater⟩ := trailing_iff.1 h
  refine ⟨later, pathPieces_eq (List.forall_mem_cons.2 ⟨hname.no_slash, ?_⟩), hlater⟩
  intro piece hpiece
  rcases hlater piece hpiece with rfl | rfl <;> decide

theorem fileName?_eq_some {path : List Char} {name : Name} :
    fileName? path = some name ↔ LastName path name := by
  rw [fileName?_eq_some_iff_pieces]
  constructor
  · rintro ⟨earlier, later, hpieces, hdown, hlater⟩
    obtain ⟨first, others, hcut, rfl, hslash⟩ := exists_pathPieces path
    rw [hcut] at hpieces
    obtain ⟨-, hnil, hdot, hdots⟩ := PathStep.ofPiece_eq_down.1 hdown
    have hname : IsPathName name := ⟨hslash name (by rw [hpieces]; simp), hnil, hdot, hdots⟩
    have hafter : Trailing (later.flatMap ('/' :: ·)) := trailing_iff.2 ⟨later, rfl, hlater⟩
    cases earlier with
    | nil =>
      obtain ⟨rfl, rfl⟩ := List.cons.inj hpieces
      exact .alone hname hafter
    | cons piece earlier =>
      obtain ⟨rfl, rfl⟩ := List.cons.inj hpieces
      have hbehind := @LastName.behind (first ++ earlier.flatMap ('/' :: ·)) _ _ hname hafter
      simpa using hbehind
  · intro h
    have hdown (hname : IsPathName name) : PathStep.ofPiece name = .down name :=
      PathStep.ofPiece_eq_down.2 ⟨rfl, hname.ne_nil, hname.ne_dot, hname.ne_dots⟩
    cases h with
    | alone hname hafter =>
      obtain ⟨later, hpieces, hlater⟩ := pathPieces_name hname hafter
      exact ⟨[], later, hpieces, hdown hname, hlater⟩
    | @behind front _ _ hname hafter =>
      obtain ⟨later, hpieces, hlater⟩ := pathPieces_name hname hafter
      exact ⟨pathPieces front, later, by rw [pathPieces_append_slash, hpieces], hdown hname, hlater⟩

theorem LastName.unique {path : List Char} {name other : Name} (h : LastName path name)
    (h' : LastName path other) : name = other :=
  Option.some.inj ((fileName?_eq_some.2 h).symm.trans (fileName?_eq_some.2 h'))

/-- The extension is what stands behind the last dot, when something stands in front of that. -/
theorem extension?_eq_some {name extension : List Char} :
    extension? name = some extension ↔
      '.' ∉ extension ∧ ∃ stem, stem ≠ [] ∧ name = stem ++ '.' :: extension := by
  constructor
  · intro h
    have hcut : name.reverse.takeWhile (· ≠ '.') ++ name.reverse.dropWhile (· ≠ '.') =
        name.reverse := List.takeWhile_append_dropWhile
    have hdot := notAhead_dropWhile (· ≠ '.') name.reverse
    unfold extension? at h
    split at h
    · next d c cs hdrop =>
      obtain rfl := Option.some.inj h
      rw [hdrop] at hcut hdot
      obtain rfl : d = '.' := by simpa using notAhead_cons.1 hdot
      refine ⟨fun hmem => ?_, (c :: cs).reverse, by simp, ?_⟩
      · simpa using List.all_eq_true.1 List.all_takeWhile _ (List.mem_reverse.1 hmem)
      · simpa using (congrArg List.reverse hcut).symm
    · cases h
  · rintro ⟨hdot, stem, hne, rfl⟩
    obtain ⟨c, cs, hstem⟩ := List.exists_cons_of_ne_nil (mt List.reverse_eq_nil_iff.1 hne)
    have hreverse : (stem ++ '.' :: extension).reverse = extension.reverse ++ '.' :: c :: cs := by
      rw [List.reverse_append, List.reverse_cons, List.append_assoc, hstem]
      rfl
    have hpiece : ∀ d ∈ extension.reverse, decide (d ≠ '.') = true := by
      intro d hd
      exact decide_eq_true fun h => hdot (h ▸ List.mem_reverse.1 hd)
    have hrest : NotAhead (· ≠ '.') ('.' :: c :: cs) := notAhead_cons.2 (by decide)
    rw [extension?, hreverse, dropWhile_eq hpiece hrest, takeWhile_eq hpiece hrest,
      List.reverse_reverse]

/-- A path is that of a schema when its last name ends in the extension and does not start there. -/
theorem isSchemaPath_iff {path : List Char} :
    isSchemaPath path = true ↔
      ∃ stem, stem ≠ [] ∧ LastName path (stem ++ ".proto".toList) := by
  simp only [isSchemaPath, decide_eq_true_eq, Option.bind_eq_some_iff, fileName?_eq_some,
    extension?_eq_some]
  constructor
  · rintro ⟨name, hname, -, stem, hne, rfl⟩
    exact ⟨stem, hne, hname⟩
  · rintro ⟨stem, hne, hname⟩
    exact ⟨_, hname, by decide, stem, hne, rfl⟩

example : ["a.proto/./", "..proto", ".proto", "a.proto/..", "a.proto.txt"].map
    (fun path => isSchemaPath path.toList) = [true, true, false, false, false] := by decide

/-! ## What is loaded -/

theorem PathFault.reason_inj {fault other : PathFault} :
    fault.reason = other.reason ↔ fault = other := by
  cases fault <;> cases other <;> decide

/-- The faults of a path: the path itself is looked at first, then what it names. -/
theorem schemaBytes_eq_error {path : String} {found : Option Entry} {fault : PathFault} :
    schemaBytes path found = .error fault ↔
      (isSchemaPath path.toList = false ∧ fault = .notASchema) ∨
      (isSchemaPath path.toList = true ∧ found = none ∧ fault = .notFound) ∨
      isSchemaPath path.toList = true ∧ found = some .directory ∧ fault = .notARegularFile := by
  unfold schemaBytes
  cases isSchemaPath path.toList with
  | false => simp [eq_comm]
  | true => rcases found with _ | _ | content <;> simp [eq_comm]

theorem schemaBytes_eq_ok {path : String} {found : Option Entry} {content : ByteArray} :
    schemaBytes path found = .ok content ↔
      isSchemaPath path.toList = true ∧ found = some (.file content) := by
  unfold schemaBytes
  cases isSchemaPath path.toList with
  | false => simp
  | true => rcases found with _ | _ | content <;> simp

theorem load_of_error {policy : Policy} {path : String} {found : Option Entry} {fault : PathFault}
    (h : schemaBytes path found = .error fault) :
    load policy path found = { result := .error (.invalidPath path fault) } := by
  rw [load, h]

theorem load_of_ok {policy : Policy} {path : String} {found : Option Entry} {content : ByteArray}
    (h : schemaBytes path found = .ok content) :
    (load policy path found).result =
      (compileBytes policy content).result.mapError .invalidSchema := by
  rw [load, h]
  cases hresult : (compileBytes policy content).result <;> simp only [hresult] <;> rfl

namespace FileTree

variable {tree other : FileTree} {policy : Policy} {path : String}

theorem load_eq_invalidPath {fault : PathFault} :
    (tree.load policy path).result = .error (.invalidPath path fault) ↔
      schemaBytes path (tree.lookup path.toList) = .error fault := by
  constructor
  · intro h
    unfold load at h
    cases hbytes : schemaBytes path (tree.lookup path.toList) with
    | error found =>
      rw [load_of_error hbytes] at h
      simpa using h
    | ok content =>
      rw [load_of_ok hbytes] at h
      cases hresult : (compileBytes policy content).result <;> rw [hresult] at h <;> cases h
  · intro h
    rw [load, load_of_error h]

theorem checkPath_eq_error {fault : PathFault} :
    tree.checkPath path = .error fault ↔
      schemaBytes path (tree.lookup path.toList) = .error fault := by
  unfold checkPath
  cases schemaBytes path (tree.lookup path.toList) <;> simp [Except.map]

/-! ## Trees of one shape -/

/-- What two trees have under the same names, but for the content of a file. -/
inductive SameKind : Option Entry → Option Entry → Prop
  | missing : SameKind none none
  | directory : SameKind (some .directory) (some .directory)
  | file (content content' : ByteArray) :
      SameKind (some (.file content)) (some (.file content'))

/-- The trees have the same directories and files, which may hold different contents. -/
structure SameShape (tree other : FileTree) : Prop where
  workingDirectory : other.workingDirectory = tree.workingDirectory
  entry : ∀ names, SameKind (tree.entry? names) (other.entry? names)

theorem sameShape_put {names : List Name} {content : ByteArray}
    (h : tree.entry? names = some (.file content)) (content' : ByteArray) :
    tree.SameShape (tree.put names (.file content')) where
  workingDirectory := rfl
  entry others := by
    by_cases hothers : others = names
    · have hne : names ≠ [] := by
        rintro rfl
        cases h
      rw [hothers, h, entry?_put hne]
      exact .file content content'
    · rw [entry?_put_of_ne hothers]
      rcases tree.entry? others with _ | _ | kept
      · exact .missing
      · exact .directory
      · exact .file kept kept

theorem SameShape.enter_eq (h : tree.SameShape other) : other.enter = tree.enter := by
  funext names step
  cases step with
  | stay | up => rfl
  | down name =>
    have hkind := h.entry (names ++ [name])
    simp only [enter]
    generalize tree.entry? (names ++ [name]) = found at hkind ⊢
    generalize other.entry? (names ++ [name]) = found' at hkind ⊢
    cases hkind <;> rfl

theorem SameShape.approach_eq (h : tree.SameShape other) (path : List Char) :
    other.approach path = tree.approach path := by
  rw [approach, approach, origin, origin, h.enter_eq, h.workingDirectory]

theorem SameShape.lookup (h : tree.SameShape other) (path : List Char) :
    SameKind (tree.lookup path) (other.lookup path) := by
  unfold FileTree.lookup
  rw [h.approach_eq]
  split
  · exact .missing
  · split
    · split
      · exact .missing
      · exact h.entry _
    · exact .directory
    · exact .directory
    · exact .missing

/-- What a file holds is no reason to refuse its path. -/
theorem SameKind.schemaBytes_eq_error {found found' : Option Entry} {fault : PathFault}
    (hkind : SameKind found found') (h : schemaBytes path found = .error fault) :
    schemaBytes path found' = .error fault := by
  cases hkind with
  | missing => exact h
  | directory => exact h
  | file content content' =>
    rw [ProtoSchema.schemaBytes_eq_error] at h ⊢
    simpa using h

theorem SameShape.load_of_checkPath {fault : PathFault} (h : tree.SameShape other)
    (hcheck : tree.checkPath path = .error fault) (policy : Policy) :
    other.load policy path = { result := .error (.invalidPath path fault) } := by
  have hbytes := (h.lookup path.toList).schemaBytes_eq_error (checkPath_eq_error.1 hcheck)
  rw [load, load_of_error hbytes]

/-! ## Every case -/

/-- Loading refuses the path, and this is the reason that is shown. -/
def Refuses (tree : FileTree) (policy : Policy) (path reason : String) : Prop :=
  ∃ fault : PathFault, fault.reason = reason ∧
    (tree.load policy path).result = .error (.invalidPath path fault)

theorem refuses_iff (fault : PathFault) :
    tree.Refuses policy path fault.reason ↔
      schemaBytes path (tree.lookup path.toList) = .error fault := by
  constructor
  · rintro ⟨found, hreason, hload⟩
    obtain rfl := PathFault.reason_inj.1 hreason
    exact load_eq_invalidPath.1 hload
  · intro h
    exact ⟨fault, rfl, load_eq_invalidPath.2 h⟩

/-- Loading checks the path and then compiles the bytes of the file, for every file tree, path and
policy. The path is refused when its last name does not end in the extension behind at least one
other character, else when it names nothing, else when it names a directory, and each time with the
reason for that. If none of this holds the path names a file, and loading comes to what compiling
its bytes comes to. A path that the check refuses is refused with the same answer under each policy
and whatever the files hold. -/
theorem load_by_path (tree : FileTree) (policy : Policy) (path : String) :
    let named := ∃ stem, stem ≠ [] ∧ LastName path.toList (stem ++ ".proto".toList)
    let found := tree.lookup path.toList
    (tree.Refuses policy path "expected a .proto file" ↔ ¬ named) ∧
    (tree.Refuses policy path "file not found" ↔ named ∧ found = none) ∧
    (tree.Refuses policy path "not a regular file" ↔ named ∧ found = some .directory) ∧
    (named → found ≠ none → found ≠ some .directory → ∃ content, found = some (.file content) ∧
      (tree.load policy path).result =
        (compileBytes policy content).result.mapError .invalidSchema) ∧
    ∀ fault, tree.checkPath path = .error fault → ∀ other, tree.SameShape other → ∀ policy',
      other.load policy' path = { result := .error (.invalidPath path fault) } := by
  intro named found
  have hnamed : isSchemaPath path.toList = true ↔ named := isSchemaPath_iff
  have hunnamed : isSchemaPath path.toList = false ↔ ¬ named := by
    rw [← Bool.not_eq_true, hnamed]
  refine ⟨?_, ?_, ?_, fun h hfound hdirectory => ?_, fun fault hcheck other hshape policy' => ?_⟩
  · refine (refuses_iff .notASchema).trans ?_
    simp [schemaBytes_eq_error, hunnamed]
  · refine (refuses_iff .notFound).trans ?_
    simp [schemaBytes_eq_error, hnamed, found]
  · refine (refuses_iff .notARegularFile).trans ?_
    simp [schemaBytes_eq_error, hnamed, found]
  · obtain ⟨content, hcontent⟩ : ∃ content, found = some (.file content) := by
      rcases found with _ | _ | content
      · exact absurd rfl hfound
      · exact absurd rfl hdirectory
      · exact ⟨content, rfl⟩
    exact ⟨content, hcontent, load_of_ok (schemaBytes_eq_ok.2 ⟨hnamed.2 h, hcontent⟩)⟩
  · exact hshape.load_of_checkPath hcheck policy'

/-- A directory with the name of a schema, and a schema with a name of two dots and an extension. -/
theorem load_by_path_runs :
    let tree := ((FileTree.empty [['w']]).plant "d.proto" .directory).plant "..proto"
      (.file "message A \x7b\n\x7d".toUTF8)
    let other := tree.put [['w'], "..proto".toList] (.file "\x7d".toUTF8)
    tree.checkPath "./d.proto//." = .error .notARegularFile ∧ tree.SameShape other ∧
      other.load { idCheck := .atEnd } "./d.proto//." =
        { result := .error (.invalidPath "./d.proto//." .notARegularFile) } ∧
      tree.Refuses {} "./d.proto//." "not a regular file" ∧
      LastName "./..proto".toList (".".toList ++ ".proto".toList) ∧
      (tree.load {} "./..proto").result = .ok [{ name := "A", line := 1 }] := by
  intro tree other
  have hcheck : tree.checkPath "./d.proto//." = .error .notARegularFile := by
    unfold tree
    rfl
  have hfile : tree.entry? [['w'], "..proto".toList] =
      some (.file "message A \x7b\n\x7d".toUTF8) := by
    unfold tree
    rfl
  have hshape : tree.SameShape other := sameShape_put hfile _
  have hname : LastName "./..proto".toList (".".toList ++ ".proto".toList) :=
    fileName?_eq_some.1 (by decide)
  have hfound : tree.lookup "./..proto".toList = some (.file "message A \x7b\n\x7d".toUTF8) := by
    unfold tree
    rfl
  obtain ⟨-, -, hrefuses, -, hsame⟩ := load_by_path tree {} "./d.proto//."
  obtain ⟨-, -, -, hloads, -⟩ := load_by_path tree {} "./..proto"
  obtain ⟨content, hcontent, hload⟩ := hloads ⟨".".toList, by decide, hname⟩
    (by rw [hfound]; nofun) (by rw [hfound]; nofun)
  refine ⟨hcheck, hshape, hsame _ hcheck other hshape _,
    hrefuses.2 ⟨⟨"d".toList, by decide, ?_⟩, ?_⟩, hname, ?_⟩
  · exact fileName?_eq_some.1 (by decide)
  · unfold tree
    rfl
  · rw [hfound] at hcontent
    obtain rfl := Entry.file.inj (Option.some.inj hcontent)
    rw [hload]
    rfl

end FileTree

end ProtoSchema
