import Sift.Proofs.Token.Scan

namespace Sift

namespace Position

/-- Lines and columns count from one. -/
def IsPlace (p : Position) : Prop :=
  1 ≤ p.line ∧ 1 ≤ p.column

/-- Where a place of a text is if the text begins at another place than the start. -/
def behind (base p : Position) : Position :=
  if p.line = 1 then ⟨base.line, base.column + p.column - 1⟩ else ⟨base.line + p.line - 1, p.column⟩

theorem behind_start (base : Position) : base.behind .start = base := by
  simp [behind, start]

theorem IsPlace.advance {p : Position} (place : p.IsPlace) (c : Char) : (p.advance c).IsPlace := by
  obtain ⟨line, column⟩ := place
  unfold Position.advance
  split
  · exact ⟨Nat.le_succ_of_le line, Nat.le_refl 1⟩
  · exact ⟨line, Nat.le_succ_of_le column⟩

/-- To go on behind a base is to go on and then be put behind it. -/
theorem behind_advance (base : Position) {p : Position} (place : p.IsPlace) (c : Char) :
    base.behind (p.advance c) = (base.behind p).advance c := by
  obtain ⟨line, column⟩ := place
  have further : p.line + 1 ≠ 1 := by omega
  by_cases newline : c = '\n'
  · by_cases first : p.line = 1
    · simp only [behind, Position.advance, if_pos newline, if_pos first, if_neg further, mk.injEq, and_true]
      omega
    · simp only [behind, Position.advance, if_pos newline, if_neg first, if_neg further, mk.injEq, and_true]
      omega
  · by_cases first : p.line = 1
    · simp only [behind, Position.advance, if_neg newline, if_pos first, mk.injEq, true_and]
      omega
    · simp only [behind, Position.advance, if_neg newline, if_neg first]

theorem IsPlace.foldl_advance {p : Position} (place : p.IsPlace) (cs : List Char) :
    (cs.foldl Position.advance p).IsPlace := by
  induction cs generalizing p with
  | nil => exact place
  | cons c cs ih => exact ih (place.advance c)

theorem behind_foldl_advance (base : Position) {p : Position} (place : p.IsPlace) (cs : List Char) :
    cs.foldl Position.advance (base.behind p) = base.behind (cs.foldl Position.advance p) := by
  induction cs generalizing p with
  | nil => rfl
  | cons c cs ih => rw [List.foldl_cons, List.foldl_cons, ← behind_advance base place, ih (place.advance c)]

end Position

namespace Token

/-- A token of a text that begins at another place than the start. -/
def movedTo (base : Position) (t : Token) : Token :=
  { t with position := base.behind t.position }

/-- The place where a text begins makes no other difference to its tokens than to their places. -/
theorem scanFrom_behind (base : Position) {p : Position} (place : p.IsPlace) (quoted : Bool)
    (cs : List Char) : scanFrom (base.behind p) quoted cs = (scanFrom p quoted cs).map (movedTo base) := by
  have after : ∀ t : Token, t.position.IsPlace → (t.movedTo base).after = base.behind t.after :=
    fun t place => Position.behind_foldl_advance base place t.written
  have inPlace : ∀ t : Token, t.position.IsPlace → t.after.IsPlace :=
    fun t place => place.foldl_advance t.written
  fun_induction scanFrom p quoted cs with
  | case1 => rfl
  | case2 p quoted c cs special t ih =>
    rw [scanFrom, if_pos special, List.map_cons, ← ih (inPlace t place), ← after t place]
    rfl
  | case3 p quoted c cs plain t ih =>
    rw [scanFrom, if_neg plain, List.map_cons, ← ih (inPlace t place), ← after t place]
    rfl
  | case4 p quoted c cs whole t ih =>
    rw [scanFrom, List.map_cons, ← ih (inPlace t place), ← after t place]
    · rfl
    · exact whole

/-- A text behind another one has its own tokens, at other places. -/
theorem scanFrom_eq_map (base : Position) (quoted : Bool) (cs : List Char) :
    scanFrom base quoted cs = (scanFrom .start quoted cs).map (movedTo base) := by
  have place : Position.start.IsPlace := ⟨Nat.le_refl 1, Nat.le_refl 1⟩
  have moved := scanFrom_behind base place quoted cs
  rwa [base.behind_start] at moved

/-- Whether a text is inside quotes after some tokens. -/
def quotedAfter (quoted : Bool) (ts : List Token) : Bool :=
  ts.foldl (fun quoted t => quoted != (t.kind == .doubleQuote)) quoted

/-- A backslash that ends a text. -/
def Dangles (ts : List Token) : Prop :=
  ∃ last, ts.getLast? = some last ∧ last.kind = .other ∧ last.char = '\\'

theorem isSome_openQuote? (opening : Option Token) (ts : List Token) :
    (openQuote? opening ts).isSome = quotedAfter opening.isSome ts := by
  induction ts generalizing opening with
  | nil => rfl
  | cons t ts ih =>
    rw [openQuote?, quotedAfter, List.foldl_cons]
    by_cases quote : t.kind = .doubleQuote
    · rw [if_pos quote, ih, quote]
      cases opening <;> rfl
    · rw [if_neg quote, ih, beq_eq_false_iff_ne.mpr quote, Bool.bne_false]
      rfl

/-- Tokens are read in one way only if no quote is open at the end and no backslash dangles. -/
theorem ambiguity?_eq_none_iff {ts : List Token} :
    ambiguity? ts = none ↔ quotedAfter false ts = false ∧ ¬Dangles ts := by
  have quotes := isSome_openQuote? none ts
  rw [Option.isSome_none] at quotes
  rw [← quotes, ambiguity?, Dangles]
  cases openQuote? none ts with
  | some quote => simp
  | none => cases ts.getLast? <;> simp

theorem Dangles.cons {ts : List Token} (dangles : Dangles ts) (t : Token) : Dangles (t :: ts) := by
  obtain ⟨last, atEnd, backslash⟩ := dangles
  exact ⟨last, by rw [List.getLast?_cons, atEnd, Option.getD_some], backslash⟩

theorem quotedAfter_cons (quoted : Bool) (t : Token) (ts : List Token) :
    quotedAfter quoted (t :: ts) = quotedAfter (quoted != (t.kind == .doubleQuote)) ts :=
  rfl

/-- A text that does not end in a lone backslash keeps its tokens whatever comes after it. -/
theorem scanFrom_append {position : Position} {quoted : Bool} {cs : List Char}
    (clear : ¬Dangles (scanFrom position quoted cs)) (more : List Char) :
    ∃ position', scanFrom position quoted (cs ++ more) = scanFrom position quoted cs ++
      scanFrom position' (quotedAfter quoted (scanFrom position quoted cs)) more := by
  fun_induction scanFrom position quoted cs with
  | case1 position quoted => exact ⟨position, rfl⟩
  | case2 position quoted c cs special t ih =>
    obtain ⟨position', cut⟩ := ih fun dangles => clear (dangles.cons t)
    have noQuote : t.kind ≠ .doubleQuote := nofun
    refine ⟨position', ?_⟩
    rw [List.cons_append, List.cons_append, scanFrom, if_pos special]
    change t :: scanFrom t.after quoted (cs ++ more) = _
    rw [cut, quotedAfter_cons, beq_eq_false_iff_ne.mpr noQuote, Bool.bne_false]
    rfl
  | case3 position quoted c cs plain t ih =>
    obtain ⟨position', cut⟩ := ih fun dangles => clear (dangles.cons t)
    have noQuote : t.kind ≠ .doubleQuote := Kind.classify_ne_doubleQuote (by decide) quoted
    refine ⟨position', ?_⟩
    rw [List.cons_append, List.cons_append, scanFrom, if_neg plain]
    change t :: scanFrom t.after quoted (c :: cs ++ more) = _
    rw [cut, quotedAfter_cons, beq_eq_false_iff_ne.mpr noQuote, Bool.bne_false]
    rfl
  | case4 position quoted c cs whole t ih =>
    obtain ⟨position', cut⟩ := ih fun dangles => clear (dangles.cons t)
    refine ⟨position', ?_⟩
    have regular : c ≠ '\\' := by
      rintro rfl
      cases cs with
      | nil => exact clear ⟨t, rfl, by cases quoted <;> rfl, rfl⟩
      | cons c cs => exact whole c cs rfl rfl
    rw [List.cons_append, scanFrom]
    · change t :: scanFrom t.after (quoted != (t.kind == .doubleQuote)) (cs ++ more) = _
      rw [cut, quotedAfter_cons]
      rfl
    · exact fun _ _ backslash => absurd backslash regular

/-- What is open after tokens depends on what was open before them. -/
theorem quotedAfter_append (quoted : Bool) (ts us : List Token) :
    quotedAfter quoted (ts ++ us) = quotedAfter (quotedAfter quoted ts) us :=
  List.foldl_append

/-- Places have no part in which quotes are open. -/
theorem quotedAfter_map (base : Position) (quoted : Bool) (ts : List Token) :
    quotedAfter quoted (ts.map (movedTo base)) = quotedAfter quoted ts :=
  List.foldl_map

theorem Dangles.of_map {base : Position} {ts : List Token} (dangles : Dangles (ts.map (movedTo base))) :
    Dangles ts := by
  obtain ⟨last, atEnd, other, backslash⟩ := dangles
  rw [List.getLast?_map] at atEnd
  obtain ⟨t, inPlace, rfl⟩ := Option.map_eq_some_iff.mp atEnd
  exact ⟨t, inPlace, other, backslash⟩

theorem Dangles.of_append {ts us : List Token} (dangles : Dangles (ts ++ us)) : Dangles ts ∨ Dangles us := by
  obtain ⟨last, atEnd, backslash⟩ := dangles
  rw [List.getLast?_append] at atEnd
  cases found : us.getLast? with
  | none =>
    rw [found, Option.none_or] at atEnd
    exact .inl ⟨last, atEnd, backslash⟩
  | some t =>
    rw [found, Option.some_or] at atEnd
    exact .inr ⟨last, found.trans atEnd, backslash⟩

/-- Characters whose tokens can be read in one way only and have a property, wherever the characters
stand. -/
def Stands (cs : List Char) (spells : List Token → Prop) : Prop :=
  ∀ position, ambiguity? (scanFrom position false cs) = none ∧ spells (scanFrom position false cs)

theorem Stands.imp {cs : List Char} {spells spells' : List Token → Prop} (stands : Stands cs spells)
    (weaker : ∀ ts, spells ts → spells' ts) : Stands cs spells' :=
  fun position => (stands position).imp_right (weaker _)

/-- What stands by itself stands beside other text. -/
theorem Stands.append {cs ds : List Char} {spells spells' whole : List Token → Prop}
    (first : Stands cs spells) (second : Stands ds spells')
    (both : ∀ ts us, spells ts → spells' us → whole (ts ++ us)) : Stands (cs ++ ds) whole := by
  intro position
  obtain ⟨clear, spelled⟩ := first position
  obtain ⟨closed, settled⟩ := ambiguity?_eq_none_iff.mp clear
  obtain ⟨between, cut⟩ := scanFrom_append settled ds
  rw [closed] at cut
  obtain ⟨clear', spelled'⟩ := second between
  obtain ⟨closed', settled'⟩ := ambiguity?_eq_none_iff.mp clear'
  rw [cut, ambiguity?_eq_none_iff]
  refine ⟨⟨?_, fun dangles => ?_⟩, both _ _ spelled spelled'⟩
  · rw [quotedAfter_append, closed, closed']
  · exact dangles.of_append.elim settled settled'

theorem Stands.both {cs ds : List Char} {spells spells' : List Token → Prop} (first : Stands cs spells)
    (second : Stands ds spells') :
    Stands (cs ++ ds) fun ts => ∃ us vs, ts = us ++ vs ∧ spells us ∧ spells' vs :=
  first.append second fun us vs spelled spelled' => ⟨us, vs, rfl, spelled, spelled'⟩

/-- A text that scans for itself stands wherever it is put. -/
theorem Scans.stands {cs : List Char} {spells : List Token → Prop} (scans : Scans cs spells) :
    Stands cs spells := by
  intro position
  obtain ⟨ts, position', closed, spelled, cut⟩ := scans position
  have whole := cut []
  rw [List.append_nil, scanFrom, List.append_nil] at whole
  rw [whole]
  exact ⟨closed.ambiguity?_eq_none, spelled⟩

/-- A text stands anywhere as it does by itself, if the places of its tokens do not matter. -/
theorem stands_iff {text : String} {spells : List Token → Prop}
    (moved : ∀ base ts, spells ts → spells (ts.map (movedTo base))) :
    Stands text.toList spells ↔ ambiguity? (scan text) = none ∧ spells (scan text) := by
  refine ⟨fun stands => stands .start, ?_⟩
  rintro ⟨clear, spelled⟩ position
  obtain ⟨closed, settled⟩ := ambiguity?_eq_none_iff.mp clear
  rw [scanFrom_eq_map position, ambiguity?_eq_none_iff]
  refine ⟨⟨?_, fun dangles => settled dangles.of_map⟩, moved position _ spelled⟩
  rw [quotedAfter_map]
  exact closed

end Token

end Sift
