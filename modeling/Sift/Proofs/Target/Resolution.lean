import Mathlib.Data.List.Forall2
import Mathlib.Data.List.Permutation
import Sift.Proofs.Target.Paths

namespace Sift

namespace Filter

mutual

/-- The fields that the tests of a filter look at. -/
def fields : Filter → List String
  | always => []
  | test t => [t.field]
  | join _ parts => fieldsOfAll parts
  | not inner => inner.fields

/-- The fields of several filters. -/
def fieldsOfAll : List Filter → List String
  | [] => []
  | f :: fs => f.fields ++ fieldsOfAll fs

end

theorem mem_fieldsOfAll {field : String} {fs : List Filter} :
    field ∈ fieldsOfAll fs ↔ ∃ f ∈ fs, field ∈ f.fields := by
  induction fs with
  | nil => simp [fieldsOfAll]
  | cons f fs ih => simp only [fieldsOfAll, List.mem_append, ih, List.mem_cons, exists_eq_or_imp]

/-- What holds of the fields of all tests holds of the fields of a filter. -/
theorem WellFormed.of_mem_fields {allowed : String → Prop} {f : Filter}
    (formed : f.WellFormed fun t => allowed t.field) : ∀ field ∈ f.fields, allowed field := by
  induction formed with
  | always => exact nofun
  | test holds =>
    intro field member
    rwa [List.mem_singleton.mp member]
  | join _ _ ih =>
    intro field member
    obtain ⟨part, within, inPart⟩ := mem_fieldsOfAll.mp member
    exact ih part within field inPart
  | not _ ih => exact ih

end Filter

section
variable {α β ε : Type} {f : α → Except ε β}

/-- All of some results come to a list if each of them is one. -/
theorem mapM_eq_ok {xs : List α} {ys : List β} :
    xs.mapM f = .ok ys ↔ List.Forall₂ (fun x y => f x = .ok y) xs ys := by
  induction xs generalizing ys with
  | nil =>
    rw [List.mapM_nil, List.forall₂_nil_left_iff]
    exact ⟨fun same => (Except.ok.inj same).symm, fun same => same ▸ rfl⟩
  | cons x xs ih =>
    rw [List.mapM_cons, List.forall₂_cons_left_iff]
    cases first : f x with
    | error error => simp [bind, Except.bind]
    | ok y =>
      cases others : xs.mapM f with
      | error error =>
        have none : ∀ ys, ¬List.Forall₂ (fun x y => f x = .ok y) xs ys := fun ys all => by
          rw [ih.mpr all] at others
          cases others
        simp [bind, Except.bind, none]
      | ok zs =>
        have same : ∀ ys, List.Forall₂ (fun x y => f x = .ok y) xs ys ↔ zs = ys := fun ys => by
          rw [← ih, others, Except.ok.injEq]
        simp [bind, Except.bind, pure, Except.pure, same, eq_comm]

/-- The first failure decides, whatever comes after it. -/
theorem mapM_eq_error {before after : List α} {x : α} {error : ε} (succeed : ∀ y ∈ before, ∃ z, f y = .ok z)
    (fails : f x = .error error) : (before ++ x :: after).mapM f = .error error := by
  induction before with
  | nil =>
    rw [List.nil_append, List.mapM_cons, fails]
    rfl
  | cons y before ih =>
    obtain ⟨⟨z, first⟩, succeed⟩ := List.forall_mem_cons.mp succeed
    rw [List.cons_append, List.mapM_cons, first, ih succeed]
    rfl

theorem forall₂_replaced {related : α → α → Prop} {becomes : α → β → Prop}
    (alike : ∀ x y z, related x y → becomes x z → becomes y z) {xs ys : List α} {zs : List β}
    (pairs : List.Forall₂ related xs ys) (result : List.Forall₂ becomes xs zs) : List.Forall₂ becomes ys zs := by
  induction pairs generalizing zs with
  | nil => exact result
  | cons first _ ih =>
    cases result with
    | cons becomesFirst others => exact .cons (alike _ _ _ first becomesFirst) (ih others)

theorem exists_of_forall₂ {related : α → β → Prop} {xs : List α} {ys : List β}
    (pairs : List.Forall₂ related xs ys) : ∀ y ∈ ys, ∃ x ∈ xs, related x y := by
  induction pairs with
  | nil => exact nofun
  | cons first _ ih =>
    intro y member
    rcases List.mem_cons.mp member with rfl | later
    · exact ⟨_, List.mem_cons_self .., first⟩
    · obtain ⟨x, within, related⟩ := ih y later
      exact ⟨x, List.mem_cons_of_mem _ within, related⟩

/-- If not all members of a list have a property, there is a first one without it. -/
theorem exists_first_not {p : α → Prop} {xs : List α} (exception : ∃ x ∈ xs, ¬p x) :
    ∃ before x after, xs = before ++ x :: after ∧ (∀ y ∈ before, p y) ∧ ¬p x := by
  induction xs with
  | nil =>
    obtain ⟨x, member, -⟩ := exception
    exact absurd member List.not_mem_nil
  | cons x xs ih =>
    by_cases holds : p x
    · have later : ∃ y ∈ xs, ¬p y := by
        obtain ⟨y, member, fails⟩ := exception
        rcases List.mem_cons.mp member with rfl | within
        · exact absurd holds fails
        · exact ⟨y, within, fails⟩
      obtain ⟨before, y, after, rfl, all, fails⟩ := ih later
      exact ⟨x :: before, y, after, rfl, List.forall_mem_cons.mpr ⟨holds, all⟩, fails⟩
    · exact ⟨[], x, xs, rfl, nofun, holds⟩

end

/-- Orderings of the same form, related key by key. -/
def Sorting.Each (related : SortKey → SortKey → Prop) : Sorting → Sorting → Prop
  | single key, single key' => related key key'
  | several keys, several keys' => List.Forall₂ related keys keys'
  | single _, several _ | several _, single _ => False

theorem Sorting.Each.imp {related related' : SortKey → SortKey → Prop}
    (weaker : ∀ key key', related key key' → related' key key') {sorting other : Sorting}
    (each : sorting.Each related other) : sorting.Each related' other := by
  cases sorting <;> cases other
  · exact weaker _ _ each
  · exact each
  · exact each
  · exact List.Forall₂.imp weaker each

namespace Resolver

variable (resolver : Resolver)

/-- An ordering with the properties by the names of a kind of document. -/
def resolveSorting : Sorting → Except QueryError Sorting
  | .single key => (resolve resolver key.property).map fun path => .single { key with property := path }
  | .several keys => (resolveKeys resolver keys).map .several

theorem resolveCriteria_eq_mapM (criteria : List Criterion) :
    resolveCriteria resolver criteria = criteria.mapM fun criterion =>
      (resolve resolver criterion.property).map fun path => { criterion with property := path } := by
  induction criteria with
  | nil => rfl
  | cons criterion criteria ih =>
    rw [resolveCriteria, List.mapM_cons, ih]
    cases resolve resolver criterion.property <;> rfl

theorem resolveKeys_eq_mapM (keys : List SortKey) :
    resolveKeys resolver keys = keys.mapM fun key =>
      (resolve resolver key.property).map fun path => { key with property := path } := by
  induction keys with
  | nil => rfl
  | cons key keys ih =>
    rw [resolveKeys, List.mapM_cons, ih]
    cases resolve resolver key.property <;> rfl

variable {resolver}

/-- Criteria are resolved one by one, and their expressions stay as they are. -/
theorem resolveCriteria_eq_ok {criteria renamed : List Criterion} :
    resolveCriteria resolver criteria = .ok renamed ↔
      List.Forall₂ (fun criterion renamed => ∃ path, resolve resolver criterion.property = .ok path ∧
        { criterion with property := path } = renamed) criteria renamed := by
  rw [resolveCriteria_eq_mapM, mapM_eq_ok]
  simp only [map_eq_ok]

/-- An ordering is resolved key by key, and its directions stay as they are. -/
theorem resolveSorting_eq_ok {sorting renamed : Sorting} :
    resolveSorting resolver sorting = .ok renamed ↔
      sorting.Each (fun key renamed => ∃ path, resolve resolver key.property = .ok path ∧
        { key with property := path } = renamed) renamed := by
  cases sorting with
  | single key =>
    rw [resolveSorting, map_eq_ok]
    cases renamed <;> simp [Sorting.Each]
  | several keys =>
    rw [resolveSorting, map_eq_ok, resolveKeys_eq_mapM]
    simp only [mapM_eq_ok, map_eq_ok]
    cases renamed <;> simp [Sorting.Each]

/-- The first property without a name decides. -/
theorem mapM_resolve_eq_error {α : Type} {property : α → PropertyPath} {rename : α → PropertyPath → α}
    {before after : List α} {x : α} {error : QueryError}
    (named : ∀ y ∈ before, ∃ path, resolve resolver (property y) = .ok path)
    (unnamed : resolve resolver (property x) = .error error) :
    ((before ++ x :: after).mapM fun y => (resolve resolver (property y)).map (rename y)) = .error error := by
  apply mapM_eq_error
  · intro y member
    obtain ⟨path, found⟩ := named y member
    exact ⟨rename y path, map_eq_ok.mpr ⟨path, found, rfl⟩⟩
  · rw [unnamed]
    rfl

/-- The first path without a name is the one that is told of. -/
theorem resolveCriteria_eq_error {before : List Criterion} {criterion : Criterion} {error : QueryError}
    (named : ∀ c ∈ before, ∃ path, resolve resolver c.property = .ok path)
    (unnamed : resolve resolver criterion.property = .error error) (after : List Criterion) :
    resolveCriteria resolver (before ++ criterion :: after) = .error error := by
  rw [resolveCriteria_eq_mapM]
  exact mapM_resolve_eq_error named unnamed

theorem resolveSorting_eq_error {sorting : Sorting} {before after : List SortKey} {key : SortKey}
    {error : QueryError} (keys : sorting.keys = before ++ key :: after)
    (named : ∀ k ∈ before, ∃ path, resolve resolver k.property = .ok path)
    (unnamed : resolve resolver key.property = .error error) :
    resolveSorting resolver sorting = .error error := by
  cases sorting with
  | single only =>
    have first : only = key := by
      cases before <;> simp_all [Sorting.keys]
    rw [resolveSorting, first, unnamed]
    rfl
  | several others =>
    have fails : resolveKeys resolver others = .error error := by
      rw [show others = before ++ key :: after from keys, resolveKeys_eq_mapM]
      exact mapM_resolve_eq_error named unnamed
    rw [resolveSorting, fails]
    rfl

/-- What is compiled of a text is made of the criteria that are read from it. -/
theorem compile_of_read {text : String} {criteria : List Criterion}
    (read : Criterion.readList text = .ok criteria) :
    compile resolver text = (resolveCriteria resolver criteria).map Criterion.filterAll := by
  rw [compile, Criterion.isBlankText_of_read read, read]
  rfl

theorem compileSorting_of_read {text : String} {sorting : Sorting} (read : Sorting.read text = .ok sorting) :
    compileSorting resolver text = resolveSorting resolver sorting := by
  rw [compileSorting, read]
  cases sorting <;> rfl

/-- What a text that is not blank compiles to comes from its resolved criteria. -/
theorem compile_eq_ok {text : String} {f : Filter} (filled : isBlankText text = false)
    (compiled : compile resolver text = .ok f) :
    ∃ criteria renamed, Criterion.readList text = .ok criteria ∧
      resolveCriteria resolver criteria = .ok renamed ∧ f = Criterion.filterAll renamed := by
  rw [compile, filled] at compiled
  cases read : Criterion.readList text with
  | error error =>
    rw [read] at compiled
    cases compiled
  | ok criteria =>
    rw [read] at compiled
    obtain ⟨renamed, found, rfl⟩ := map_eq_ok.mp compiled
    exact ⟨criteria, renamed, rfl, found, rfl⟩

theorem compileSorting_eq_ok {text : String} {sorting : Sorting}
    (compiled : compileSorting resolver text = .ok sorting) :
    ∃ written, Sorting.read text = .ok written ∧ resolveSorting resolver written = .ok sorting := by
  cases read : Sorting.read text with
  | error error =>
    rw [compileSorting, read] at compiled
    cases compiled
  | ok written => exact ⟨written, rfl, (compileSorting_of_read read).symm.trans compiled⟩

/-- That a field is the property of a criterion, by the name of a kind of document. -/
def IsFieldOf (resolver : Resolver) (criteria : List Criterion) (field : String) : Prop :=
  ∃ criterion ∈ criteria, ∃ path, resolve resolver criterion.property = .ok path ∧ field = path.dotted

theorem isFieldOf_of_resolveCriteria {criteria renamed : List Criterion}
    (found : resolveCriteria resolver criteria = .ok renamed) :
    ∀ field ∈ (Criterion.filterAll renamed).fields, IsFieldOf resolver criteria field := by
  have stable : Filter.Stable (Filter.WellFormed fun t => IsFieldOf resolver criteria t.field) :=
    .wellFormed fun _ isField => isField
  have formed : (Criterion.filterAll renamed).WellFormed fun t => IsFieldOf resolver criteria t.field := by
    apply stable.filterAll
    intro changed within
    obtain ⟨criterion, original, path, resolved, rfl⟩ :=
      exists_of_forall₂ (resolveCriteria_eq_ok.mp found) changed within
    have isField : IsFieldOf resolver criteria path.dotted := ⟨criterion, original, path, resolved, rfl⟩
    exact criterion.expression.filter_holds (fun _ _ _ _ => .test isField) stable
  exact formed.of_mem_fields

/-- Every field of a compiled query is the name of a path in it. -/
theorem isFieldOf_of_compile {text : String} {f : Filter} (compiled : compile resolver text = .ok f) :
    ∀ field ∈ f.fields, ∃ criteria, Criterion.readList text = .ok criteria ∧
      IsFieldOf resolver criteria field := by
  intro field member
  cases filled : isBlankText text with
  | true =>
    rw [compile, filled] at compiled
    cases compiled
    exact absurd member List.not_mem_nil
  | false =>
    obtain ⟨criteria, renamed, read, found, rfl⟩ := compile_eq_ok filled compiled
    exact ⟨criteria, read, isFieldOf_of_resolveCriteria found field member⟩

end Resolver

/-- That a list of names has one for a path, in any case. -/
def PropertyPath.IsListed (names : List String) (path : PropertyPath) : Prop :=
  ∃ name ∈ names, sameIgnoringCase name path.dotted = true

/-- That two criteria are the same but for the case of their paths. -/
def Criterion.SameButCase (criterion other : Criterion) : Prop :=
  criterion.expression = other.expression ∧
    sameIgnoringCase criterion.property.dotted other.property.dotted = true

/-- That two keys are the same but for the case of their paths. -/
def SortKey.SameButCase (key other : SortKey) : Prop :=
  key.direction = other.direction ∧ sameIgnoringCase key.property.dotted other.property.dotted = true

namespace Target

variable {target : Target} {names : List String} (listed : target.properties = .listed names)

include listed

theorem resolve?_eq_find? (path : PropertyPath) :
    target.resolve? path = names.find? (sameIgnoringCase · path.dotted) := by
  rw [resolve?, listed]

/-- A path is resolved to a listed name that differs from it in case at most. -/
theorem resolve_sound {path renamed : PropertyPath}
    (found : Resolver.resolve target.resolve? path = .ok renamed) :
    renamed.dotted ∈ names ∧ sameIgnoringCase renamed.dotted path.dotted = true := by
  rw [Resolver.resolve, resolve?_eq_find? listed] at found
  cases name : names.find? (sameIgnoringCase · path.dotted) with
  | none =>
    rw [name] at found
    cases found
  | some declared =>
    rw [name] at found
    cases found
    rw [PropertyPath.dotted_ofDotted]
    have same : sameIgnoringCase declared path.dotted = true :=
      List.find?_some (p := (sameIgnoringCase · path.dotted)) name
    exact ⟨List.mem_of_find?_eq_some name, same⟩

/-- A listed path has a name, whatever its case. -/
theorem resolve_of_isListed {path : PropertyPath} (isListed : path.IsListed names) :
    ∃ renamed, Resolver.resolve target.resolve? path = .ok renamed := by
  rw [Resolver.resolve, resolve?_eq_find? listed]
  cases name : names.find? (sameIgnoringCase · path.dotted) with
  | none =>
    obtain ⟨declared, member, same⟩ := isListed
    exact absurd same (List.find?_eq_none.mp name declared member)
  | some declared => exact ⟨_, rfl⟩

/-- A path that is not listed is refused by its own spelling. -/
theorem resolve_of_not_isListed {path : PropertyPath} (unlisted : ¬path.IsListed names) :
    Resolver.resolve target.resolve? path = .error (.unknownProperty path.dotted) := by
  have none : names.find? (sameIgnoringCase · path.dotted) = none :=
    List.find?_eq_none.mpr fun name member same => unlisted ⟨name, member, same⟩
  rw [Resolver.resolve, resolve?_eq_find? listed, none]

/-- The first name that is a path's in any case is the same for a path in another case. -/
theorem resolve_sameIgnoringCase {path other renamed : PropertyPath}
    (same : sameIgnoringCase path.dotted other.dotted = true)
    (found : Resolver.resolve target.resolve? path = .ok renamed) :
    Resolver.resolve target.resolve? other = .ok renamed := by
  have lowered : path.dotted.toList.map Char.toLower = other.dotted.toList.map Char.toLower :=
    beq_iff_eq.mp same
  have search : (fun name => sameIgnoringCase name path.dotted) = fun name => sameIgnoringCase name other.dotted := by
    funext name
    rw [sameIgnoringCase, lowered, sameIgnoringCase]
  rw [Resolver.resolve, resolve?_eq_find? listed, search] at found
  rw [Resolver.resolve, resolve?_eq_find? listed]
  cases name : names.find? (sameIgnoringCase · other.dotted) with
  | none =>
    rw [name] at found
    cases found
  | some declared =>
    rw [name] at found
    exact found

/-- A query with an unlisted path is refused, with the first of them. -/
theorem compile_unlisted {text : String} {criteria : List Criterion}
    (read : Criterion.readList text = .ok criteria)
    (exception : ∃ criterion ∈ criteria, ¬criterion.property.IsListed names) :
    ∃ before criterion after, criteria = before ++ criterion :: after ∧
      (∀ earlier ∈ before, earlier.property.IsListed names) ∧ ¬criterion.property.IsListed names ∧
      criterion.property.IsWrittenIn text.toList ∧
      target.compile text = .error (.unknownProperty criterion.property.dotted) := by
  obtain ⟨before, criterion, after, rfl, isListed, unlisted⟩ := exists_first_not exception
  have stands := Criterion.path_isWrittenIn read criterion (by simp)
  have fails := Resolver.resolveCriteria_eq_error
    (fun earlier member => resolve_of_isListed listed (isListed earlier member))
    (resolve_of_not_isListed listed unlisted) after
  refine ⟨before, criterion, after, rfl, isListed, unlisted, stands, ?_⟩
  rw [compile, Resolver.compile_of_read read, fails]
  rfl

theorem compileSorting_unlisted {text : String} {written : Sorting} (read : Sorting.read text = .ok written)
    (exception : ∃ key ∈ written.keys, ¬key.property.IsListed names) :
    ∃ before key after, written.keys = before ++ key :: after ∧
      (∀ earlier ∈ before, earlier.property.IsListed names) ∧ ¬key.property.IsListed names ∧
      key.property.IsWrittenIn text.toList ∧
      target.compileSorting text = .error (.unknownProperty key.property.dotted) := by
  obtain ⟨before, key, after, whole, isListed, unlisted⟩ := exists_first_not exception
  have stands := Sorting.path_isWrittenIn read key (by simp [whole])
  have fails := Resolver.resolveSorting_eq_error whole
    (fun earlier member => resolve_of_isListed listed (isListed earlier member))
    (resolve_of_not_isListed listed unlisted)
  refine ⟨before, key, after, whole, isListed, unlisted, stands, ?_⟩
  rw [compileSorting, Resolver.compileSorting_of_read read, fails]

/-- Criteria whose paths differ in case are resolved to the same ones. -/
theorem resolveCriteria_sameButCase {criteria others renamed : List Criterion}
    (alike : List.Forall₂ Criterion.SameButCase criteria others)
    (found : Resolver.resolveCriteria target.resolve? criteria = .ok renamed) :
    Resolver.resolveCriteria target.resolve? others = .ok renamed := by
  refine Resolver.resolveCriteria_eq_ok.mpr (forall₂_replaced ?_ alike (Resolver.resolveCriteria_eq_ok.mp found))
  rintro criterion other _ ⟨sameExpression, samePath⟩ ⟨path, resolved, rfl⟩
  exact ⟨path, resolve_sameIgnoringCase listed samePath resolved, by rw [sameExpression]⟩

theorem resolveSorting_sameButCase {sorting other renamed : Sorting}
    (alike : sorting.Each SortKey.SameButCase other)
    (found : Resolver.resolveSorting target.resolve? sorting = .ok renamed) :
    Resolver.resolveSorting target.resolve? other = .ok renamed := by
  have each : ∀ key key' renamed : SortKey, key.SameButCase key' →
      (∃ path, Resolver.resolve target.resolve? key.property = .ok path ∧ { key with property := path } = renamed) →
      ∃ path, Resolver.resolve target.resolve? key'.property = .ok path ∧ { key' with property := path } = renamed := by
    rintro key key' _ ⟨sameDirection, samePath⟩ ⟨path, resolved, rfl⟩
    exact ⟨path, resolve_sameIgnoringCase listed samePath resolved, by rw [sameDirection]⟩
  rw [Resolver.resolveSorting_eq_ok] at found ⊢
  cases sorting <;> cases other <;> cases renamed <;> simp only [Sorting.Each] at alike found ⊢
  · exact each _ _ _ alike found
  · exact forall₂_replaced each alike found

/-- A kind of document that has a list of properties is only ever asked for these. Every field of a
compiled query is a name of the list, and is but for case a path that the query was written with. The keys
of a compiled ordering are such names in the order and directions of the text. If a path has no name, the
first one is told as it is written. Paths may be written in any case. -/
theorem names_only_listed (text : String) :
    (∀ f, target.compile text = .ok f → ∀ field ∈ f.fields, field ∈ names ∧
      ∃ criteria, Criterion.readList text = .ok criteria ∧ ∃ criterion ∈ criteria,
        criterion.property.IsWrittenIn text.toList ∧
        sameIgnoringCase field criterion.property.dotted = true) ∧
    (∀ sorting, target.compileSorting text = .ok sorting →
      ∃ written, Sorting.read text = .ok written ∧ written.Each (fun key renamed =>
        renamed.direction = key.direction ∧ renamed.property.dotted ∈ names ∧
        sameIgnoringCase renamed.property.dotted key.property.dotted = true) sorting) ∧
    (∀ criteria, Criterion.readList text = .ok criteria →
      target.compile text = (Resolver.resolveCriteria target.resolve? criteria).map Criterion.filterAll ∧
      ((∃ criterion ∈ criteria, ¬criterion.property.IsListed names) →
        ∃ before criterion after, criteria = before ++ criterion :: after ∧
          (∀ earlier ∈ before, earlier.property.IsListed names) ∧ ¬criterion.property.IsListed names ∧
          criterion.property.IsWrittenIn text.toList ∧
          target.compile text = .error (.unknownProperty criterion.property.dotted)) ∧
      ∀ others renamed, List.Forall₂ Criterion.SameButCase criteria others →
        Resolver.resolveCriteria target.resolve? criteria = .ok renamed →
        Resolver.resolveCriteria target.resolve? others = .ok renamed) ∧
    ∀ written, Sorting.read text = .ok written →
      target.compileSorting text = Resolver.resolveSorting target.resolve? written ∧
      ((∃ key ∈ written.keys, ¬key.property.IsListed names) →
        ∃ before key after, written.keys = before ++ key :: after ∧
          (∀ earlier ∈ before, earlier.property.IsListed names) ∧ ¬key.property.IsListed names ∧
          key.property.IsWrittenIn text.toList ∧
          target.compileSorting text = .error (.unknownProperty key.property.dotted)) ∧
      ∀ other renamed, written.Each SortKey.SameButCase other →
        Resolver.resolveSorting target.resolve? written = .ok renamed →
        Resolver.resolveSorting target.resolve? other = .ok renamed := by
  refine ⟨?_, ?_, ?_, ?_⟩
  · intro f compiled field member
    obtain ⟨criteria, read, criterion, within, path, resolved, rfl⟩ :=
      Resolver.isFieldOf_of_compile compiled field member
    obtain ⟨declared, same⟩ := resolve_sound listed resolved
    exact ⟨declared, criteria, read, criterion, within, Criterion.path_isWrittenIn read criterion within, same⟩
  · intro sorting compiled
    obtain ⟨written, read, resolved⟩ := Resolver.compileSorting_eq_ok compiled
    refine ⟨written, read, (Resolver.resolveSorting_eq_ok.mp resolved).imp ?_⟩
    rintro key _ ⟨path, found, rfl⟩
    exact ⟨rfl, resolve_sound listed found⟩
  · intro criteria read
    exact ⟨Resolver.compile_of_read read, compile_unlisted listed read,
      fun others renamed alike found => resolveCriteria_sameButCase listed alike found⟩
  · intro written read
    exact ⟨Resolver.compileSorting_of_read read, compileSorting_unlisted listed read,
      fun other renamed alike found => resolveSorting_sameButCase listed alike found⟩

omit listed

/-- A kind of document with two properties. -/
def letters : Target :=
  ⟨"letters", .listed ["A", "b"]⟩

/-- Two names of one letter, asked for in the other case. -/
theorem names_only_listed_letters :
    (letters.compile "a=1" = .ok (.comparing "A" .equal (.string "1")) ∧ "A" ∈ ["A", "b"]) ∧
    (letters.compileSorting "-a" = .ok (.single ⟨⟨["A"]⟩, .descending⟩) ∧
      ∃ written, Sorting.read "-a" = .ok written ∧ written.keys.length = 1) ∧
    letters.compile "x=1" = .error (.unknownProperty "x") ∧
    letters.compileSorting "-x" = .error (.unknownProperty "x") ∧
    Resolver.resolveCriteria letters.resolve? [⟨⟨["A"]⟩, .constant "1"⟩] = .ok [⟨⟨["A"]⟩, .constant "1"⟩] ∧
    Resolver.resolveSorting letters.resolve? (.single ⟨⟨["A"]⟩, .descending⟩) =
      .ok (.single ⟨⟨["A"]⟩, .descending⟩) := by
  have listed : letters.properties = .listed ["A", "b"] := rfl
  have known : Criterion.readList "a=1" = .ok [⟨⟨["a"]⟩, .constant "1"⟩] := by with_unfolding_all rfl
  have unknown : Criterion.readList "x=1" = .ok [⟨⟨["x"]⟩, .constant "1"⟩] := by with_unfolding_all rfl
  have down : Sorting.read "-a" = .ok (.single ⟨⟨["a"]⟩, .descending⟩) := by decide
  have unknownDown : Sorting.read "-x" = .ok (.single ⟨⟨["x"]⟩, .descending⟩) := by decide
  have unlisted : ¬PropertyPath.IsListed ["A", "b"] ⟨["x"]⟩ := by
    rintro ⟨name, member, same⟩
    have none : ["A", "b"].all (fun name => !sameIgnoringCase name "x") = true := by decide
    have different := List.all_eq_true.mp none name member
    rw [show sameIgnoringCase name "x" = true from same] at different
    cases different
  have sameCase : sameIgnoringCase "a" "A" = true := by decide
  obtain ⟨ofFields, -, ofCriteria, -⟩ := names_only_listed listed "a=1"
  obtain ⟨-, ofKeys, -, ofWritten⟩ := names_only_listed listed "-a"
  have compiled : letters.compile "a=1" = .ok (.comparing "A" .equal (.string "1")) :=
    (ofCriteria _ known).1.trans rfl
  have sorted : letters.compileSorting "-a" = .ok (.single ⟨⟨["A"]⟩, .descending⟩) :=
    (ofWritten _ down).1.trans rfl
  refine ⟨⟨compiled, ?_⟩, ⟨sorted, ?_⟩, ?_, ?_, ?_, ?_⟩
  · exact (ofFields _ compiled "A" (List.mem_singleton_self _)).1
  · obtain ⟨written, read, each⟩ := ofKeys _ sorted
    refine ⟨written, read, ?_⟩
    cases written with
    | single key => rfl
    | several keys => exact each.elim
  · obtain ⟨-, -, ofUnknown, -⟩ := names_only_listed listed "x=1"
    obtain ⟨before, criterion, after, whole, -, -, -, refused⟩ :=
      (ofUnknown _ unknown).2.1 ⟨_, List.mem_singleton_self _, unlisted⟩
    cases before with
    | nil =>
      rw [← (List.cons.inj whole).1] at refused
      exact refused
    | cons first others => simp at whole
  · obtain ⟨-, -, -, ofUnknown⟩ := names_only_listed listed "-x"
    obtain ⟨before, key, after, whole, -, -, -, refused⟩ :=
      (ofUnknown _ unknownDown).2.1 ⟨_, List.mem_singleton_self _, unlisted⟩
    cases before with
    | nil =>
      rw [← (List.cons.inj whole).1] at refused
      exact refused
    | cons first others => simp [Sorting.keys] at whole
  · exact (ofCriteria _ known).2.2 _ _ (.cons ⟨rfl, sameCase⟩ .nil) rfl
  · exact (ofWritten _ down).2.2 (.single ⟨⟨["A"]⟩, .descending⟩) _ ⟨rfl, sameCase⟩ rfl

end Target

end Sift
