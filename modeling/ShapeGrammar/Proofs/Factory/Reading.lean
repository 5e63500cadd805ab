import ShapeGrammar.Factory.Read
import ShapeGrammar.Proofs.Factory.Lexing
import ShapeGrammar.Proofs.Factory.Scoping

/-!
# Factories are read back

Every step of a factory is written as a block, from which it is read back, and blocks that are
written one below the other are told apart by their indentation. So the text of a factory holds the
factory and nothing else, as long as its caption stands on one line: a caption with a line end in it
puts lines of its own into the factory.

Headlines: `Opens`, `blocksOf_written`, `Statement.opens`, `Clause.opens`, `ofText_source`,
`Plan.Ordered.ofText_generate`.
-/

namespace ShapeGrammar

/-! ## Blocks -/

/-- Some lines of a text are a block: its head, as deep as said, and below it the deeper lines of
its body. -/
structure Opens (depth : Nat) (lines : List String) (b : Block) : Prop where
  full : fullLines lines = ⟨depth, b.head⟩ :: b.body
  deeper : ∀ line ∈ b.body, depth < line.indent
  oneLine : ∀ line ∈ lines, OneLine line

theorem Opens.indent {depth : Nat} {lines : List String} {b : Block} (h : Opens depth lines b) :
    ∀ line ∈ fullLines lines, depth ≤ line.indent := by
  intro line hline
  rw [h.full] at hline
  rcases List.mem_cons.mp hline with rfl | hline
  · exact Nat.le_refl depth
  · exact Nat.le_of_lt (h.deeper line hline)

theorem blocksOf_deeper {depth : Nat} {inner : List Line} (rest : List Line)
    (h : ∀ line ∈ inner, depth < line.indent) :
    blocksOf depth (inner ++ rest) =
      (inner ++ (blocksOf depth rest).1, (blocksOf depth rest).2) := by
  induction inner with
  | nil => rfl
  | cons line inner ih =>
    rw [List.cons_append, blocksOf, ih fun l hl => h l (List.mem_cons_of_mem line hl)]
    exact if_pos (h line List.mem_cons_self)

/-- **Blocks that are written one below the other are read back.** -/
theorem blocksOf_written {depth : Nat} {pieces : List (List String)} {bs : List Block}
    (h : List.Forall₂ (Opens depth) pieces bs) :
    blocksOf depth (fullLines pieces.flatten) = ([], bs) := by
  induction h with
  | nil => rfl
  | @cons piece b pieces bs hpiece _ ih =>
    rw [List.flatten_cons, fullLines_append, hpiece.full, List.cons_append, blocksOf,
      blocksOf_deeper _ hpiece.deeper, ih, List.append_nil]
    exact if_neg (Nat.lt_irrefl depth)

theorem lines_of_opens {depth : Nat} {pieces : List (List String)} {bs : List Block}
    (h : List.Forall₂ (Opens depth) pieces bs) :
    (∀ line ∈ fullLines pieces.flatten, depth ≤ line.indent) ∧
      ∀ line ∈ pieces.flatten, OneLine line := by
  induction h with
  | nil => exact ⟨fun _ hline => absurd hline List.not_mem_nil, fun _ hline =>
      absurd hline List.not_mem_nil⟩
  | cons hpiece _ ih =>
    rw [List.flatten_cons, fullLines_append]
    constructor
    · intro line hline
      exact (List.mem_append.mp hline).elim (hpiece.indent line) (ih.1 line)
    · intro line hline
      exact (List.mem_append.mp hline).elim (hpiece.oneLine line) (ih.2 line)

theorem blocks?_written {depth : Nat} {pieces : List (List String)} {bs : List Block}
    (h : List.Forall₂ (Opens depth) pieces bs) (hne : bs ≠ []) :
    blocks? depth (fullLines pieces.flatten) = some bs := by
  obtain ⟨b, rest, rfl⟩ := List.exists_cons_of_ne_nil hne
  rw [blocks?, blocksOf_written h]

/-- What each of some pieces is read as, all of them are read as. -/
theorem mapM_of_opens {α : Type} {depth : Nat} {read : Block → Option α}
    {lines : α → List String} : ∀ {xs : List α},
      (∀ x ∈ xs, ∃ b, Opens depth (lines x) b ∧ read b = some x) →
        ∃ bs, List.Forall₂ (Opens depth) (xs.map lines) bs ∧ bs.mapM read = some xs
  | [], _ => ⟨[], .nil, rfl⟩
  | x :: xs, h => by
    obtain ⟨b, hb, hread⟩ := h x List.mem_cons_self
    obtain ⟨bs, hbs, hreads⟩ := mapM_of_opens fun y hy => h y (List.mem_cons_of_mem x hy)
    refine ⟨b :: bs, .cons hb hbs, ?_⟩
    rw [List.mapM_cons, hread, hreads]
    rfl

/-- Pieces that are blocks are read back, if there is one. -/
theorem read_of_opens {α : Type} {depth : Nat} {read : Block → Option α}
    {lines : α → List String} {xs : List α} (hne : xs ≠ [])
    (h : ∀ x ∈ xs, ∃ b, Opens depth (lines x) b ∧ read b = some x) :
    ∃ bs, blocks? depth (fullLines (xs.flatMap lines)) = some bs ∧ bs.mapM read = some xs ∧
      (∀ line ∈ fullLines (xs.flatMap lines), depth ≤ line.indent) ∧
      ∀ line ∈ xs.flatMap lines, OneLine line := by
  obtain ⟨bs, hbs, hreads⟩ := mapM_of_opens h
  have hsome : bs ≠ [] := by
    rintro rfl
    exact hne (List.map_eq_nil_iff.mp (List.forall₂_nil_right_iff.mp hbs))
  rw [List.flatMap_def]
  exact ⟨bs, blocks?_written hbs hsome, hreads, lines_of_opens hbs⟩

/-! ## Lines -/

/-- A line that begins with so many spaces. -/
theorem lineOf_eq {line : String} {depth : Nat} {body : List Char}
    (hline : line.toList = List.replicate depth ' ' ++ body) (hbody : body.head? ≠ some ' ') :
    lineOf line = ⟨depth, lex .between body⟩ := by
  have hblank : ∀ n, lex .between (List.replicate n ' ' ++ body) = lex .between body := by
    intro n
    induction n with
    | zero => rfl
    | succ n ih => exact ih
  have hnone : body.takeWhile (· == ' ') = [] := by
    cases body with
    | nil => rfl
    | cons c cs => exact List.takeWhile_cons_of_neg (by simpa using hbody)
  have hindent : (List.replicate depth ' ' ++ body).takeWhile (· == ' ') =
      List.replicate depth ' ' := by
    rw [List.takeWhile_append_of_pos fun c hc => by rw [List.eq_of_mem_replicate hc]; rfl, hnone,
      List.append_nil]
  unfold lineOf Line.ofChars
  rw [hline, hindent, hblank, List.length_replicate]

/-- A text that begins with no blank and is read as some tokens, where no word goes on. -/
structure Lexes (text : String) (tokens : List Token) : Prop where
  begins : text.toList ≠ [] ∧ text.toList.head? ≠ some ' '
  lex : ∀ {rest}, Apart rest → lex .between (text.toList ++ rest) = tokens ++ lex .between rest
  oneLine : OneLine text

/-- A text that is read as some tokens, whatever follows. -/
structure Closes (text : String) (tokens : List Token) : Prop where
  begins : text.toList ≠ [] ∧ text.toList.head? ≠ some ' '
  lex : ∀ rest, lex .between (text.toList ++ rest) = tokens ++ lex .between rest
  oneLine : OneLine text

/-- A text of signs, which no word goes on with. -/
structure Signs (text : String) (tokens : List Token) : Prop where
  apart : ∀ rest, Apart (text.toList ++ rest)
  lex : ∀ rest, lex .between (text.toList ++ rest) = tokens ++ lex .between rest
  oneLine : OneLine text

section Texts

variable {a b n : String} {ts us : List Token}

theorem Closes.lexes (h : Closes a ts) : Lexes a ts :=
  ⟨h.begins, fun _ => h.lex _, h.oneLine⟩

theorem begins_append (h : a.toList ≠ [] ∧ a.toList.head? ≠ some ' ') :
    (a ++ b).toList ≠ [] ∧ (a ++ b).toList.head? ≠ some ' ' := by
  obtain ⟨c, cs, hc⟩ := List.exists_cons_of_ne_nil h.1
  rw [String.toList_append, hc]
  rw [hc] at h
  exact ⟨List.cons_ne_nil _ _, h.2⟩

theorem IsName.lexes (h : IsName n) : Lexes n [.name n] where
  begins := by
    obtain ⟨c, cs, hc⟩ := List.exists_cons_of_ne_nil h.nonempty
    refine ⟨h.nonempty, fun hblank => ?_⟩
    rw [hc] at hblank
    obtain rfl : c = ' ' := by simpa using hblank
    have hword := h.word ' ' (hc ▸ List.mem_cons_self)
    cases hword
  lex := lex_name h
  oneLine := h.oneLine

theorem Lexes.signs (ha : Lexes a ts) (hb : Signs b us) : Closes (a ++ b) (ts ++ us) where
  begins := begins_append ha.begins
  lex rest := by
    rw [String.toList_append, List.append_assoc, ha.lex (hb.apart rest), hb.lex,
      List.append_assoc]
  oneLine := ha.oneLine.append hb.oneLine

theorem Closes.append (ha : Closes a ts) (hb : Lexes b us) : Lexes (a ++ b) (ts ++ us) where
  begins := begins_append ha.begins
  lex hrest := by
    rw [String.toList_append, List.append_assoc, ha.lex, hb.lex hrest, List.append_assoc]
  oneLine := ha.oneLine.append hb.oneLine

theorem Closes.name (ha : Closes a ts) (hn : IsName n) : Lexes (a ++ n) (ts ++ [.name n]) :=
  ha.append hn.lexes

/-- The tokens of names separated by commas. -/
def commaTokens : List String → List Token
  | [] => []
  | [n] => [.name n]
  | n :: ns => .name n :: .sign ',' :: commaTokens ns

theorem lexes_commaList : ∀ {names : List String}, names ≠ [] → (∀ n ∈ names, IsName n) →
    Lexes (commaList names) (commaTokens names)
  | [n], _, h => by
    have hn := (h n List.mem_cons_self).lexes
    unfold commaList
    rwa [String.intercalate_singleton]
  | n :: k :: names, _, h => by
    have hrest : Lexes (commaList (k :: names)) (commaTokens (k :: names)) :=
      lexes_commaList (List.cons_ne_nil k names) fun m hm => h m (List.mem_cons_of_mem n hm)
    have hcomma : Signs ", " [.sign ','] := ⟨fun _ => rfl, fun _ => rfl, by decide⟩
    have hall := ((h n List.mem_cons_self).lexes.signs hcomma).append hrest
    unfold commaList at hall ⊢
    rw [String.intercalate_cons_cons]
    exact hall

theorem Closes.arguments (ha : Closes a ts) {names : List String} (h : ∀ n ∈ names, IsName n) :
    Closes (a ++ commaList names ++ ")") (ts ++ (commaTokens names ++ [.sign ')'])) := by
  have hclose : Signs ")" [.sign ')'] := ⟨fun _ => rfl, fun _ => rfl, by decide⟩
  by_cases hnames : names = []
  · subst hnames
    have hempty : commaList [] = "" := rfl
    rw [hempty, String.append_empty]
    exact ha.lexes.signs hclose
  · rw [← List.append_assoc]
    exact (ha.append (lexes_commaList hnames h)).signs hclose

/-- Arguments between parentheses are read back. -/
theorem argumentsOf?_commaTokens : ∀ names : List String,
    argumentsOf? (commaTokens names ++ [.sign ')']) = some names
  | [] => rfl
  | [_] => rfl
  | n :: k :: names => by
    have hrest := argumentsOf?_commaTokens (k :: names)
    show (argumentsOf? (commaTokens (k :: names) ++ [.sign ')'])).map (n :: ·) = _
    rw [hrest]
    rfl

/-- Variables in front of an equals sign are read back. -/
theorem unpackedOf?_commaTokens (whole : List Token) : ∀ {names : List String}, names ≠ [] →
    unpackedOf? (commaTokens names ++ .sign ',' :: .sign ')' :: .sign '=' :: whole) =
      some (names, whole)
  | [_], _ => rfl
  | n :: k :: names, _ => by
    have hrest := unpackedOf?_commaTokens whole (List.cons_ne_nil k names)
    show (unpackedOf? (commaTokens (k :: names) ++ _)).map (fun r => (n :: r.1, r.2)) = _
    rw [hrest]
    rfl

end Texts

/-- A line with nothing below it. -/
theorem Opens.single {depth : Nat} {line text : String} {t : Token} {ts : List Token}
    (h : Lexes text (t :: ts)) (hline : line.toList = List.replicate depth ' ' ++ text.toList) :
    Opens depth [line] ⟨t :: ts, []⟩ where
  full := by
    have hlex := h.lex (show Apart [] from rfl)
    rw [List.append_nil, show lex .between [] = [] from rfl, List.append_nil] at hlex
    unfold fullLines
    rw [List.map_singleton, lineOf_eq hline h.begins.2, hlex]
    rfl
  deeper _ hl := absurd hl List.not_mem_nil
  oneLine l hl c hc := by
    rw [List.mem_singleton.mp hl, hline] at hc
    rcases List.mem_append.mp hc with hc | hc
    · rw [List.eq_of_mem_replicate hc]
      decide
    · exact h.oneLine c hc

/-- A line with other lines below it, all of them deeper. -/
theorem Opens.above {depth : Nat} {line : String} {lines : List String} {t : Token}
    {ts : List Token} (h : Opens depth [line] ⟨t :: ts, []⟩)
    (hdeeper : ∀ l ∈ fullLines lines, depth < l.indent) (honeLine : ∀ l ∈ lines, OneLine l) :
    Opens depth (line :: lines) ⟨t :: ts, fullLines lines⟩ where
  full := by
    have hall := fullLines_append [line] lines
    rwa [h.full] at hall
  deeper := hdeeper
  oneLine := List.forall_mem_cons.mpr ⟨h.oneLine line List.mem_cons_self, honeLine⟩

/-- An empty line makes no difference. -/
theorem Opens.blank {depth : Nat} {lines : List String} {b : Block} (h : Opens depth lines b) :
    Opens depth ("" :: lines) b :=
  ⟨h.full, h.deeper, List.forall_mem_cons.mpr ⟨by decide, h.oneLine⟩⟩

/-! ## Statements -/

/-- All names in a statement are read as names. -/
def Statement.Legible (s : Statement) : Prop :=
  ∀ name ∈ s.reads ++ s.binds, IsName name

theorem isName_entry (entry : Entry) : IsName entry.name := by
  cases entry <;> exact ⟨by decide, by decide, by decide⟩

/-- The line of a statement that stands alone in a procedure. -/
theorem opens_line {text : String} {t : Token} {ts : List Token} {s : Statement}
    (h : Lexes text (t :: ts)) (hread : Statement.ofTokens? (t :: ts) = some s) :
    ∃ b, Opens 8 ["        " ++ text] b ∧ Statement.ofBlock? true b = some s :=
  ⟨_, .single h String.toList_append, hread⟩

/-- The lines of a statement that returns under a condition. -/
theorem opens_condition {condition answer : String} {t u : Token} {ts us : List Token}
    {s : Statement} (h : Lexes condition (t :: ts)) (hanswer : Lexes answer (u :: us))
    (hread : Statement.ofCondition? true (t :: ts) (u :: us) = some s) :
    ∃ b, Opens 8 ["        " ++ condition, "        " ++ ("    " ++ answer)] b ∧
      Statement.ofBlock? true b = some s := by
  have hline : ("        " ++ ("    " ++ answer)).toList =
      List.replicate 12 ' ' ++ answer.toList := by
    rw [String.toList_append, String.toList_append]
    rfl
  have hopens : Opens 12 ["        " ++ ("    " ++ answer)] ⟨u :: us, []⟩ :=
    .single hanswer hline
  have hlines : fullLines ["        " ++ ("    " ++ answer)] = [⟨12, u :: us⟩] := hopens.full
  refine ⟨_, .above (.single h String.toList_append) (fun l hl => ?_) hopens.oneLine, ?_⟩
  · rw [hlines] at hl
    rw [List.mem_singleton.mp hl]
    exact Nat.lt_of_sub_eq_succ rfl
  · rw [hlines]
    exact hread

/-- **A statement is read back from its lines.** -/
theorem Statement.opens {s : Statement} (h : s.Legible) :
    ∃ b, Opens 8 (s.lines.map ("        " ++ ·)) b ∧ ofBlock? true b = some s := by
  have hdot : Signs "." [.sign '.'] := ⟨fun _ => rfl, fun _ => rfl, by decide⟩
  have hequals : Signs " = " [.sign '='] := ⟨fun _ => rfl, fun _ => rfl, by decide⟩
  have hcomma : Signs ", " [.sign ','] := ⟨fun _ => rfl, fun _ => rfl, by decide⟩
  have hopen : Signs "(" [.sign '('] := ⟨fun _ => rfl, fun _ => rfl, by decide⟩
  have hclose : Signs ")" [.sign ')'] := ⟨fun _ => rfl, fun _ => rfl, by decide⟩
  have hreturn : Closes "return " [.keyword .return] := ⟨by decide, fun _ => rfl, by decide⟩
  have hnone : Lexes "None" [.keyword .none] :=
    ⟨by decide, lex_ofWord (by decide) (by decide), by decide⟩
  have hnothing := hreturn.append hnone
  cases s with
  | call result parser entry cursor =>
    have hr : IsName result := h _ (by simp [reads, binds, moves])
    have hp : IsName parser := h _ (by simp [reads])
    have hc : IsName cursor := h _ (by simp [reads])
    refine opens_line ((((((hr.lexes.signs hequals).name hp).signs hdot).name
      (isName_entry entry)).signs hopen).name hc |>.signs hclose).lexes ?_
    cases entry <;> rfl
  | returnMiss result =>
    have hr : IsName result := h _ (by simp [reads])
    have hif : Closes "if " [.keyword .ifTrue] := ⟨by decide, fun _ => rfl, by decide⟩
    have his : Signs " is None:" [.keyword .is, .keyword .none, .sign ':'] :=
      ⟨fun _ => rfl, fun _ => rfl, by decide⟩
    exact opens_condition ((hif.name hr).signs his).lexes hnothing rfl
  | returnError result =>
    have hr : IsName result := h _ (by simp [reads])
    have hif : Closes "if isinstance(" [.keyword .ifTrue, .name "isinstance", .sign '('] :=
      ⟨by decide, fun _ => rfl, by decide⟩
    have hkind : Signs ", ParseError):" [.sign ',', .name "ParseError", .sign ')', .sign ':'] :=
      ⟨fun _ => rfl, fun _ => rfl, by decide⟩
    refine opens_condition ((hif.name hr).signs hkind).lexes (hreturn.name hr) ?_
    exact if_pos ⟨rfl, rfl, rfl, rfl⟩
  | unpack cursor value result =>
    have hc : IsName cursor := h _ (by simp [binds, moves])
    have hv : IsName value := h _ (by simp [binds, keeps])
    have hr : IsName result := h _ (by simp [reads])
    exact opens_line ((((hc.lexes.signs hcomma).name hv).signs hequals).name hr) rfl
  | tryAttempt found attempt cursor =>
    have hf : IsName found := h _ (by simp [binds, moves])
    have ha : IsName attempt := h _ (by simp [reads])
    have hc : IsName cursor := h _ (by simp [reads])
    have hsnapshot : Signs ".snapshot())" [.sign '.', .name "snapshot", .sign '(', .sign ')',
      .sign ')'] := ⟨fun _ => rfl, fun _ => rfl, by decide⟩
    exact opens_line (((((hf.lexes.signs hequals).name ha).signs hopen).name hc).signs
      hsnapshot).lexes rfl
  | returnFound found =>
    have hf : IsName found := h _ (by simp [reads])
    have hif : Closes "if " [.keyword .ifTrue] := ⟨by decide, fun _ => rfl, by decide⟩
    have his : Signs " is not None:" [.keyword .is, .keyword .not, .keyword .none, .sign ':'] :=
      ⟨fun _ => rfl, fun _ => rfl, by decide⟩
    refine opens_condition ((hif.name hf).signs his).lexes (hreturn.name hf) ?_
    exact if_pos rfl
  | returnAttempt attempt cursor =>
    have ha : IsName attempt := h _ (by simp [reads])
    have hc : IsName cursor := h _ (by simp [reads])
    exact opens_line ((((hreturn.name ha).signs hopen).name hc).signs hclose).lexes rfl
  | returnBuilt cursor target arguments =>
    have hc : IsName cursor := h _ (by simp [reads])
    have ht : IsName target := h _ (by simp [reads])
    have hnames : ∀ n ∈ arguments, IsName n := fun n hn => h n (by simp [reads, hn])
    have hfront := (((hreturn.name hc).signs hcomma).name ht).signs hopen
    refine opens_line (hfront.arguments hnames).lexes ?_
    show (argumentsOf? (commaTokens arguments ++ [.sign ')'])).map _ = _
    rw [argumentsOf?_commaTokens]
    rfl
  | returnNothing => exact opens_line hnothing rfl

/-! ## Factories -/

/-- All names in a procedure are read as names, and it has a statement. -/
structure Procedure.Legible (p : Procedure) : Prop where
  name : IsName p.name
  parameter : IsName p.parameter
  nonempty : p.body ≠ []
  body : ∀ s ∈ p.body, s.Legible

/-- A procedure is read back from its lines. -/
theorem Procedure.opens {p : Procedure} (h : p.Legible) :
    ∃ b, Opens 4 p.lines b ∧ b.body ≠ [] ∧ ofBlock? true b = some p := by
  have hdef : Closes "def " [.keyword .define] := ⟨by decide, fun _ => rfl, by decide⟩
  have hopen : Signs "(" [.sign '('] := ⟨fun _ => rfl, fun _ => rfl, by decide⟩
  have hend : Signs "):" [.sign ')', .sign ':'] := ⟨fun _ => rfl, fun _ => rfl, by decide⟩
  have hhead := ((((hdef.name h.name).signs hopen).name h.parameter).signs hend).lexes
  have hline : ("    def " ++ p.name ++ "(" ++ p.parameter ++ "):").toList =
      List.replicate 4 ' ' ++ ("def " ++ p.name ++ "(" ++ p.parameter ++ "):").toList := by
    simp only [String.toList_append]
    rfl
  obtain ⟨bs, hblocks, hread, hindent, honeLine⟩ := read_of_opens h.nonempty fun s hs =>
    Statement.opens (h.body s hs)
  rw [← List.map_flatMap] at hblocks hindent honeLine
  refine ⟨_, .blank (.above (.single hhead hline) (fun l hl => ?_) honeLine), fun hnil => ?_, ?_⟩
  · exact Nat.lt_of_lt_of_le (by decide) (hindent l hl)
  · dsimp only at hnil
    rw [hnil] at hblocks
    cases hblocks
  · show ((blocks? 8 _).bind fun blocks => (blocks.mapM (Statement.ofBlock? true)).bind
      fun body => some _) = _
    rw [hblocks, Option.bind_some, hread]
    rfl

/-- All names in a step of a factory are read as names, and something is unpacked if anything is. -/
def Clause.Legible : Clause → Prop
  | .targets names => names ≠ [] ∧ ∀ n ∈ names, IsName n
  | .parsers _ names => names ≠ [] ∧ ∀ n ∈ names, IsName n
  | .procedure p => p.Legible
  | .returnEntries total fallible => IsName total ∧ IsName fallible
  | .returnNothing => True

/-- A line that unpacks variables is read back. -/
theorem opens_unpackLine {names : List String} {whole : String} {ts : List Token} {clause : Clause}
    (hne : names ≠ []) (hnames : ∀ n ∈ names, IsName n) (hwhole : Lexes whole ts)
    (hread : Clause.ofUnpacked? (names, ts) = some clause) :
    ∃ b, Opens 4 [unpackLine names whole] b ∧ Clause.ofBlock? true b = some clause := by
  have hopen : Closes "(" [.sign '('] := ⟨by decide, fun _ => rfl, by decide⟩
  have hend : Signs ",) = " [.sign ',', .sign ')', .sign '='] :=
    ⟨fun _ => rfl, fun _ => rfl, by decide⟩
  have hall := ((hopen.append (lexes_commaList hne hnames)).signs hend).append hwhole
  have hline : (unpackLine names whole).toList =
      List.replicate 4 ' ' ++ ("(" ++ commaList names ++ ",) = " ++ whole).toList := by
    unfold unpackLine
    simp only [String.toList_append]
    rfl
  have hunpacked := unpackedOf?_commaTokens ts hne
  refine ⟨_, .single hall hline, ?_⟩
  show (unpackedOf? (commaTokens names ++ [.sign ',', .sign ')', .sign '='] ++ ts)).bind _ = _
  rw [List.append_assoc]
  exact (congrArg (·.bind Clause.ofUnpacked?) hunpacked).trans hread

/-- **A step of a factory is read back from its lines.** -/
theorem Clause.opens {clause : Clause} (h : clause.Legible) :
    ∃ b, Opens 4 clause.lines b ∧ ofBlock? true b = some clause := by
  have hreturn : Closes "return " [.keyword .return] := ⟨by decide, fun _ => rfl, by decide⟩
  cases clause with
  | targets names =>
    have hwhole : IsName "targets" := ⟨by decide, by decide, by decide⟩
    exact opens_unpackLine h.1 h.2 hwhole.lexes rfl
  | parsers place names =>
    have hplace : OneLine ("parsers[" ++ toString place ++ "]") :=
      (OneLine.append (by decide) (oneLine_number place)).append (by decide)
    have hwhole : Closes ("parsers[" ++ toString place ++ "]")
        [.name "parsers", .sign '[', .number place, .sign ']'] := by
      refine ⟨begins_append (begins_append (by decide)), fun rest => ?_, hplace⟩
      rw [String.toList_append, String.toList_append, List.append_assoc, List.append_assoc]
      have hclosing : Apart ("]".toList ++ rest) := rfl
      show .name "parsers" :: .sign '[' :: lex .between ((toString place).toList ++ _) = _
      rw [lex_number place hclosing]
      rfl
    exact opens_unpackLine h.1 h.2 hwhole.lexes rfl
  | procedure p =>
    obtain ⟨b, hopens, hbody, hread⟩ := Procedure.opens h
    refine ⟨b, hopens, ?_⟩
    obtain ⟨line, lines, hlines⟩ := List.exists_cons_of_ne_nil hbody
    unfold ofBlock?
    rw [hlines, hread]
    rfl
  | returnEntries total fallible =>
    have hcomma : Signs ", " [.sign ','] := ⟨fun _ => rfl, fun _ => rfl, by decide⟩
    have hall := ((hreturn.name h.1).signs hcomma).name h.2
    have hline : ("    return " ++ total ++ ", " ++ fallible).toList =
        List.replicate 4 ' ' ++ ("return " ++ total ++ ", " ++ fallible).toList := by
      simp only [String.toList_append]
      rfl
    exact ⟨_, .blank (.single hall hline), rfl⟩
  | returnNothing =>
    have hnone : Lexes "None" [.keyword .none] :=
      ⟨by decide, lex_ofWord (by decide) (by decide), by decide⟩
    exact ⟨_, .single (hreturn.append hnone) rfl, rfl⟩

/-- **The body of a factory is read back from its lines.** -/
theorem ofLines?_code {code : Code} (hne : code ≠ []) (h : ∀ clause ∈ code, clause.Legible) :
    Code.ofLines? true (fullLines (code.flatMap Clause.lines)) = some code ∧
      (∀ line ∈ fullLines (code.flatMap Clause.lines), 4 ≤ line.indent) ∧
      ∀ line ∈ code.flatMap Clause.lines, OneLine line := by
  obtain ⟨bs, hblocks, hread, hlines⟩ := read_of_opens hne fun clause hclause =>
    Clause.opens (h clause hclause)
  refine ⟨?_, hlines⟩
  show (blocks? 4 _).bind _ = _
  rw [hblocks]
  exact hread

/-- A factory that is read back: its caption stands on one line. -/
structure Factory.Legible (f : Factory) : Prop where
  name : IsName f.name
  caption : OneLine f.caption
  nonempty : f.code ≠ []
  code : ∀ clause ∈ f.code, clause.Legible

/-- Where the class of failures is known, the lines of a factory define it. -/
theorem Factory.opens {f : Factory} (h : f.Legible) :
    ∃ b, Opens 0 f.lines b ∧ ∀ l : Library, l.failures = true →
      l.step b = .ok { l with functions := l.functions.put f.name f.code } := by
  have hdef : Closes "def " [.keyword .define] := ⟨by decide, fun _ => rfl, by decide⟩
  have hend : Signs "(targets, parsers):" [.sign '(', .name "targets", .sign ',', .name "parsers",
      .sign ')', .sign ':'] := ⟨fun _ => rfl, fun _ => rfl, by decide⟩
  have hhead := ((hdef.name h.name).signs hend).lexes
  obtain ⟨hread, hindent, honeLine⟩ := ofLines?_code h.nonempty h.code
  have hcaption : ("    # " ++ f.caption).toList =
      List.replicate 4 ' ' ++ '#' :: ' ' :: f.caption.toList := by
    rw [String.toList_append]
    rfl
  have hfull : fullLines (("    # " ++ f.caption) :: f.code.flatMap Clause.lines) =
      fullLines (f.code.flatMap Clause.lines) := by
    have hempty : lex .between ('#' :: ' ' :: f.caption.toList) = [] := lex_comment _
    have hline := lineOf_eq hcaption (by simp)
    rw [hempty] at hline
    unfold fullLines
    rw [List.map_cons, hline]
    rfl
  have hcomment : OneLine ("    # " ++ f.caption) := OneLine.append (by decide) h.caption
  refine ⟨_, .above (.single hhead rfl) (fun l hl => ?_)
    (List.forall_mem_cons.mpr ⟨hcomment, honeLine⟩), fun l hl => ?_⟩
  · rw [hfull] at hl
    exact Nat.lt_of_lt_of_le (by decide) (hindent l hl)
  · have hcode : Code.ofLines? l.failures (fullLines (f.code.flatMap Clause.lines)) =
        some f.code := by rwa [hl]
    rw [hfull]
    show l.define f.name (Code.ofLines? l.failures _) = _
    rw [hcode]
    rfl

/-- **The text of a factory defines the factory, and nothing else.** -/
theorem ofText_source {f : Factory} (h : f.Legible) :
    Library.ofText true f.source = .ok ⟨true, [(f.name, f.code)], .absent⟩ := by
  obtain ⟨b, hopens, hstep⟩ := Factory.opens h
  have hblocks : List.Forall₂ (Opens 0) [f.lines] [b] := .cons hopens .nil
  have hlines := blocksOf_written hblocks
  rw [List.flatten_singleton] at hlines
  have hne : f.lines ≠ [] := List.cons_ne_nil _ _
  unfold Library.ofText Factory.source
  rw [null_notMem_written hne hopens.oneLine, linesOf_written hne hopens.oneLine, hlines]
  show [b].foldlM Library.step ⟨true, [], .absent⟩ = _
  rw [List.foldlM_cons, hstep _ rfl]
  rfl

theorem code_ofText_source {f : Factory} (h : f.Legible) :
    Code.ofText f.name f.source = .ok f.code := by
  unfold Code.ofText
  rw [ofText_source h]
  show functionIn [(f.name, f.code)] f.name = _
  simp [functionIn, Table.get?]

/-! ## Factories of plans -/

theorem isName_targetName (i : Nat) : IsName (targetName i) :=
  .numbered i (by decide) (by decide)

theorem isName_fieldName (j : Nat) : IsName (fieldName j) :=
  .numbered j (by decide) (by decide)

theorem isName_attemptName (i : Nat) : IsName (attemptName i) :=
  .numbered i (by decide) (by decide)

theorem isName_parserName (i j : Nat) : IsName (parserName i j) := by
  refine .numbered j (fun c hc => ?_) ?_
  · simp only [String.toList_append, List.mem_append] at hc
    rcases hc with (hc | hc) | hc
    · exact (show IsWord "parser".toList by decide) c hc
    · exact isWordChar_of_isDigit (isDigit_of_mem_toString hc)
    · exact (show IsWord "_".toList by decide) c hc
  · rw [String.toList_append, String.toList_append, List.all_append, List.all_append]
    rfl

theorem isName_input : IsName "input" :=
  ⟨by decide, by decide, by decide⟩

theorem isName_result : IsName "result" :=
  ⟨by decide, by decide, by decide⟩

theorem isName_found : IsName "found" :=
  ⟨by decide, by decide, by decide⟩

theorem isName_factoryName : IsName factoryName :=
  ⟨by decide, by decide, by decide⟩

section Plans

variable {P : Type} {plan : Plan P} {entry : Entry} {i : Nat}

/-- The names of all that a factory is made of are names. -/
theorem fieldStatements_legible (j : Nat) : ∀ s ∈ fieldStatements entry i j, s.Legible := by
  intro s hs
  unfold fieldStatements at hs
  unfold Statement.Legible
  have hi := isName_input
  have hr := isName_result
  have hp := isName_parserName i j
  have hf := isName_fieldName j
  cases entry <;>
  · simp only [leaveUnmatched, List.mem_cons, List.not_mem_nil, or_false] at hs
    rcases hs with rfl | rfl | rfl <;>
      simp [Statement.reads, Statement.binds, Statement.moves, Statement.keeps, *]

theorem attemptStatements_legible (count : Nat) :
    ∀ s ∈ attemptStatements entry i count, s.Legible := by
  intro s hs
  rcases List.mem_append.mp hs with hs | hs
  · obtain ⟨j, -, hs⟩ := List.mem_flatMap.mp hs
    exact fieldStatements_legible j s hs
  · rw [List.mem_singleton.mp hs]
    intro name hname
    simp only [Statement.reads, Statement.binds, Statement.moves, Statement.keeps,
      List.append_nil, List.mem_cons, List.mem_map] at hname
    rcases hname with rfl | rfl | ⟨j, -, rfl⟩
    · exact isName_input
    · exact isName_targetName i
    · exact isName_fieldName j

theorem statements_legible (a : Attempt P) : ∀ s ∈ a.statements entry i, s.Legible := by
  have hi := isName_input
  have ht := isName_targetName i
  have ha := isName_attemptName i
  have hf := isName_found
  intro s hs
  unfold Attempt.statements at hs
  split at hs
  · rw [List.mem_singleton.mp hs]
    simp [Statement.Legible, Statement.reads, Statement.binds, Statement.moves, Statement.keeps, *]
  · split at hs
    · simp only [List.mem_cons, List.not_mem_nil, or_false] at hs
      rcases hs with rfl | rfl <;>
        simp [Statement.Legible, Statement.reads, Statement.binds, Statement.moves,
          Statement.keeps, *]
    · cases entry with
      | fallible =>
        rw [List.mem_singleton.mp hs]
        simp [Statement.Legible, Statement.reads, Statement.binds, Statement.moves,
          Statement.keeps, *]
      | total => exact attemptStatements_legible _ s hs

/-- The procedures of an ordered plan are read back. -/
theorem Plan.Ordered.procedures_legible (h : plan.Ordered) : ∀ p ∈ plan.procedures, p.Legible := by
  intro p hp
  have hp' : p ∈ plan.code.procedures := by rwa [procedures_code]
  obtain ⟨front, last, hbody, -⟩ := (h.wellNamed.procedures p hp').ends
  have hne : p.body ≠ [] := by
    rw [hbody]
    exact List.concat_ne_nil _ _
  rcases List.mem_append.mp hp with hp | hp
  · obtain ⟨a, -, rfl⟩ := List.mem_map.mp hp
    exact ⟨isName_attemptName _, isName_input, hne, attemptStatements_legible _⟩
  · have hentry : ∀ entry, (plan.entryProcedure entry).body ≠ [] →
        (plan.entryProcedure entry).Legible := by
      intro entry hne
      refine ⟨isName_entry entry, isName_input, hne, fun s hs => ?_⟩
      obtain ⟨a, -, hs⟩ := List.mem_flatMap.mp hs
      exact statements_legible a.1 s hs
    simp only [List.mem_cons, List.not_mem_nil, or_false] at hp
    rcases hp with rfl | rfl
    · exact hentry _ hne
    · exact hentry _ hne

theorem Plan.Ordered.code_legible (h : plan.Ordered) : ∀ clause ∈ plan.code, clause.Legible := by
  intro clause hclause
  unfold Plan.code at hclause
  simp only [List.cons_append, List.mem_cons, List.mem_append, List.mem_map, List.not_mem_nil,
    or_false] at hclause
  rcases hclause with rfl | (hclause | ⟨p, hp, rfl⟩) | rfl
  · obtain ⟨init, last, hattempts, -, -⟩ := h.split
    refine ⟨by simp [hattempts], fun n hn => ?_⟩
    obtain ⟨i, -, rfl⟩ := List.mem_map.mp hn
    exact isName_targetName i
  · obtain ⟨a, ha, rfl⟩ := List.mem_map.mp hclause
    have hfields := (List.mem_filter.mp ha).2
    refine ⟨fun hnil => ?_, fun n hn => ?_⟩
    · rw [List.map_eq_nil_iff, List.range_eq_nil] at hnil
      rw [isUnit_eq_decide, hnil] at hfields
      cases hfields
    · obtain ⟨j, -, rfl⟩ := List.mem_map.mp hn
      exact isName_parserName a.2 j
  · exact h.procedures_legible p hp
  · exact ⟨isName_entry .total, isName_entry .fallible⟩

theorem Plan.Ordered.factory_legible (h : plan.Ordered) {title name : String}
    (htitle : OneLine title) (hname : IsName name) : (plan.factory title name).Legible where
  name := hname
  caption := by
    have hkind : OneLine plan.kind.name := by
      cases plan.kind <;> decide
    exact (hkind.append (by decide)).append htitle
  nonempty := List.cons_ne_nil _ _
  code := h.code_legible

/-- **A plan is read back from its text**, if the name of its shape stands on one line. -/
theorem Plan.Ordered.ofText_generate (h : plan.Ordered) {title name : String}
    (htitle : OneLine title) (hname : IsName name) :
    Code.ofText name (plan.generate title name) = .ok plan.code :=
  code_ofText_source (h.factory_legible htitle hname)

end Plans

end ShapeGrammar
