import ListLang.Proofs.Flattening
import ListLang.Proofs.NumericLiterals
import ListLang.Proofs.TraceLines

/-! The outline of an expression has one line for each node, in preorder. A line tells the depth of
its node and the token that the node starts with, also where a string looks like a piece of an
outline. The depths give back which node is an item of which list, so what was read can be told from
its outline. -/

namespace ListLang

namespace Expr

/-! Nodes and their addresses. -/

/-- The node that is reached by taking, level by level, the items with these numbers. -/
def at? : Expr → List Nat → Option Expr
  | e, [] => some e
  | e, i :: path => e.items[i]?.bind fun item => item.at? path

mutual

/-- The nodes of an expression in preorder, each with its address. -/
def addressed : Expr → List (List Nat × Expr)
  | atom t => [([], atom t)]
  | list p es => ([], list p es) :: addressedFrom 0 es

/-- The nodes of the items from number `i` on. -/
def addressedFrom (i : Nat) : List Expr → List (List Nat × Expr)
  | [] => []
  | e :: es => (addressed e).map (fun n => (i :: n.1, n.2)) ++ addressedFrom (i + 1) es

end

mutual

theorem addressed_snd : ∀ e : Expr, e.addressed.map Prod.snd = e.nodes
  | atom t => rfl
  | list p es => by rw [addressed, nodes, List.map_cons, addressedFrom_snd es]

theorem addressedFrom_snd :
    ∀ (es : List Expr) {i : Nat}, (addressedFrom i es).map Prod.snd = nodesAll es
  | [], _ => rfl
  | e :: es, i => by
    rw [addressedFrom, nodesAll, List.map_append, List.map_map, addressedFrom_snd es,
      ← addressed_snd e]
    rfl

end

mutual

theorem mem_addressed :
    ∀ (e : Expr) {path : List Nat} {n : Expr}, (path, n) ∈ e.addressed ↔ e.at? path = some n
  | atom t, path, n => by cases path <;> simp [addressed, at?, items, eq_comm]
  | list p es, path, n => by
    rw [addressed, List.mem_cons, mem_addressedFrom es]
    cases path with
    | nil => simp [at?, eq_comm]
    | cons i path => simp [at?, items, Option.bind_eq_some_iff]

theorem mem_addressedFrom : ∀ (es : List Expr) {i : Nat} {path : List Nat} {n : Expr},
    (path, n) ∈ addressedFrom i es ↔
      ∃ k rest, path = (i + k) :: rest ∧ ∃ e, es[k]? = some e ∧ e.at? rest = some n
  | [], i, path, n => by simp [addressedFrom]
  | e :: es, i, path, n => by
    rw [addressedFrom, List.mem_append, mem_addressedFrom es]
    constructor
    · rintro (hmem | ⟨k, rest, rfl, item, hitem, hn⟩)
      · obtain ⟨m, hm, heq⟩ := List.mem_map.1 hmem
        obtain ⟨rfl, rfl⟩ := Prod.mk.inj heq
        exact ⟨0, m.1, rfl, e, rfl, (mem_addressed e).1 hm⟩
      · exact ⟨k + 1, rest, by rw [Nat.add_right_comm, Nat.add_assoc], item, hitem, hn⟩
    · rintro ⟨k, rest, rfl, item, hitem, hn⟩
      cases k with
      | zero =>
        obtain rfl := Option.some.inj hitem
        exact Or.inl (List.mem_map.2 ⟨(rest, n), (mem_addressed e).2 hn, rfl⟩)
      | succ k => exact Or.inr ⟨k, rest, by rw [Nat.add_right_comm, Nat.add_assoc], item, hitem, hn⟩

end

mutual

/-- In preorder a list comes before all within it, and an item before the items that follow it. -/
theorem addressed_sorted : ∀ e : Expr, e.addressed.Pairwise fun m n => List.Lex (· < ·) m.1 n.1
  | atom t => List.pairwise_singleton _ _
  | list p es => by
    refine List.pairwise_cons.2 ⟨fun n hn => ?_, addressedFrom_sorted es⟩
    obtain ⟨k, rest, hpath, -⟩ := (mem_addressedFrom es).1 hn
    rw [hpath]
    exact .nil

theorem addressedFrom_sorted : ∀ (es : List Expr) {i : Nat},
    (addressedFrom i es).Pairwise fun m n => List.Lex (· < ·) m.1 n.1
  | [], _ => .nil
  | e :: es, i => by
    refine List.pairwise_append.2 ⟨?_, addressedFrom_sorted es, fun m hm n hn => ?_⟩
    · exact List.pairwise_map.2 ((addressed_sorted e).imp .cons)
    · obtain ⟨m, -, rfl⟩ := List.mem_map.1 hm
      obtain ⟨k, rest, hpath, -⟩ := (mem_addressedFrom es).1 hn
      rw [hpath]
      exact .rel (by omega)

end

mutual

theorem wellSpelled_of_mem_nodes : ∀ {e n : Expr}, e.WellSpelled → n ∈ e.nodes → n.WellSpelled
  | atom t, n, hw, hn => by rwa [List.mem_singleton.1 hn]
  | list p es, n, hw, hn => by
    rcases List.mem_cons.1 hn with rfl | hn
    · exact hw
    · exact wellSpelled_of_mem_nodesAll hw hn

theorem wellSpelled_of_mem_nodesAll :
    ∀ {es : List Expr} {n : Expr}, AllWellSpelled es → n ∈ nodesAll es → n.WellSpelled
  | e :: es, n, hw, hn => by
    rcases List.mem_append.1 hn with hn | hn
    · exact wellSpelled_of_mem_nodes hw.1 hn
    · exact wellSpelled_of_mem_nodesAll hw.2 hn

end

/-! Lines. -/

/-- What a line shows before the token. A list has no text of its own. -/
def shown : Expr → List Char
  | atom t => t.text.toList ++ [' ']
  | list _ _ => []

/-- The line of a node, without the line feed that ends it. -/
def content (level : Nat) (e : Expr) : List Char :=
  List.replicate (4 * level) ' ' ++ '(' :: (e.kind.name.toList ++ ')' :: ':' :: ' ' ::
    (e.shown ++ '(' :: (e.token.display.toList ++ [')'])))

theorem toList_atomLine (level : Nat) (t : Token) :
    (atomLine level t).toList = (atom t).content level ++ ['\n'] := by
  simp [atomLine, indent, content, shown, kind, token]

theorem toList_listLine (level : Nat) (p : Position) (es : List Expr) :
    (listLine level (list p es).token.display).toList = (list p es).content level ++ ['\n'] := by
  simp [listLine, indent, content, shown, kind]

/-- The lines of the nodes of an expression that stands at a level. -/
def lines (level : Nat) (e : Expr) : List (List Char) :=
  e.addressed.map fun n => n.2.content (level + n.1.length)

theorem lines_addressedFrom (level i : Nat) (es : List Expr) :
    (addressedFrom i es).map (fun n => n.2.content (level + n.1.length)) =
      es.flatMap (lines (level + 1)) := by
  induction es generalizing i with
  | nil => rfl
  | cons e es ih =>
    have hdown : ∀ n : List Nat × Expr, level + (i :: n.1).length = level + 1 + n.1.length := by
      intro n
      rw [List.length_cons]
      omega
    simp only [addressedFrom, List.map_append, List.map_map, Function.comp_def, hdown, ih,
      List.flatMap_cons, lines]

theorem lines_list (level : Nat) (p : Position) (es : List Expr) :
    (list p es).lines level = (list p es).content level :: es.flatMap (lines (level + 1)) := by
  rw [lines, addressed, List.map_cons, lines_addressedFrom]
  rfl

theorem lines_head (level : Nat) (e : Expr) : ∃ rest, e.lines level = e.content level :: rest := by
  cases e with
  | atom t => exact ⟨[], rfl⟩
  | list p es => exact ⟨_, lines_list level p es⟩

mutual

theorem toList_outlineAt : ∀ (e : Expr) {level : Nat},
    (outlineAt level e).toList = (e.lines level).flatMap (· ++ ['\n'])
  | atom t, level => by
    rw [outlineAt, toList_atomLine]
    exact (List.append_nil _).symm
  | list p es, level => by
    rw [outlineAt, String.toList_append, toList_listLine, toList_outlineAllAt es, lines_list,
      List.flatMap_cons]

theorem toList_outlineAllAt : ∀ (es : List Expr) {level : Nat},
    (outlineAllAt level es).toList = (es.flatMap (lines level)).flatMap (· ++ ['\n'])
  | [], _ => rfl
  | e :: es, level => by
    rw [outlineAllAt, String.toList_append, toList_outlineAt e, toList_outlineAllAt es,
      List.flatMap_cons, List.flatMap_append]

end

end Expr

open ListLang.Expr

/-! What a line says can be read off it, part by part. -/

/-- Two texts that stand before the same mark, and do not hold it, end where it first stands. -/
theorem eq_before_mark {mark : Char} {as bs rest rest' : List Char} (ha : mark ∉ as)
    (hb : mark ∉ bs) (h : as ++ mark :: rest = bs ++ mark :: rest') : as = bs ∧ rest = rest' := by
  induction as generalizing bs with
  | nil =>
    cases bs with
    | nil => exact ⟨rfl, (List.cons.inj h).2⟩
    | cons b bs => exact absurd ((List.cons.inj h).1 ▸ List.mem_cons_self) hb
  | cons a as ih =>
    cases bs with
    | nil => exact absurd ((List.cons.inj h).1 ▸ List.mem_cons_self) ha
    | cons b bs =>
      obtain ⟨rfl, htails⟩ := List.cons.inj h
      obtain ⟨rfl, hrest⟩ :=
        ih (List.not_mem_of_not_mem_cons ha) (List.not_mem_of_not_mem_cons hb) htails
      exact ⟨rfl, hrest⟩

theorem ExprKind.name_injective {k l : ExprKind} : k.name = l.name → k = l := by
  cases k <;> cases l <;> decide

theorem ExprKind.closing_notMem_name (k : ExprKind) : ')' ∉ k.name.toList := by
  cases k <;> decide

theorem TokenKind.ofName?_name (k : TokenKind) : ofName? k.name = some k := by
  cases k <;> decide

theorem TokenKind.name_injective {k l : TokenKind} (h : k.name = l.name) : k = l := by
  rw [← Option.some.injEq, ← ofName?_name k, h, ofName?_name l]

theorem TokenKind.space_notMem_name (k : TokenKind) : ' ' ∉ k.name.toList := by
  cases k <;> decide

theorem TokenKind.atomKind_ne_expression (k : TokenKind) : k.atomKind ≠ .expression := by
  cases k <;> decide

theorem TokenKind.atomKind_eq_text {k : TokenKind} : k.atomKind = .text ↔ k = .text := by
  cases k <;> decide

/-- A string ends at its second quote and any other lexeme at the first space, whatever follows. -/
theorem Lexeme.eq_before_space {k l : TokenKind} {w v rest rest' : List Char} (hw : Lexeme k w)
    (hv : Lexeme l v)
    (hkl : k = .text ↔ l = .text) (h : w ++ ' ' :: rest = v ++ ' ' :: rest') : w = v ∧
      rest = rest' := by
  by_cases hk : k = .text
  · obtain rfl := hk
    obtain rfl := hkl.1 rfl
    cases hw with
    | @text cs inner =>
      cases hv with
      | @text ds inner' =>
        simp only [List.cons_append, List.append_assoc, List.nil_append, List.cons.injEq,
          true_and] at h
        obtain ⟨rfl, hrest⟩ :=
          eq_before_mark (fun hm => (inner _ hm).1 rfl) (fun hm => (inner' _ hm).1 rfl) h
        exact ⟨rfl, (List.cons.inj hrest).2⟩
  · exact eq_before_mark (hw.space_notMem hk) (hv.space_notMem (mt hkl.2 hk)) h

theorem space_notMem_intText (i : Int) : ' ' ∉ (intText i).toList :=
  (lexeme_intText i).space_notMem (by decide)

theorem toList_display (t : Token) : t.display.toList =
    '(' :: ':' :: (t.kind.name.toList ++ ' ' :: ((Text.quote t.text).toList ++ ' ' :: '[' ::
      ((intText t.pos.line).toList ++ ' ' :: ((intText t.pos.column).toList ++ [']', ')'])))) := by
  unfold Token.display
  simp

/-- Kind and place can be told from how a token is shown. -/
theorem eq_of_display_eq {t u : Token} (htext : t.text = u.text) (h : t.display = u.display) :
    t = u := by
  have hchars := congrArg String.toList h
  rw [toList_display, toList_display, htext, List.cons.injEq, List.cons.injEq] at hchars
  obtain ⟨hkind, hrest⟩ :=
    eq_before_mark t.kind.space_notMem_name u.kind.space_notMem_name hchars.2.2
  -- the quoted text is the same on both sides and falls away
  have hplace := (List.cons.inj (List.cons.inj (List.append_cancel_left hrest)).2).2
  obtain ⟨hline, hcolumn⟩ := eq_before_mark (space_notMem_intText _) (space_notMem_intText _) hplace
  obtain ⟨kind, text, line, column⟩ := t
  obtain ⟨kind', text', line', column'⟩ := u
  obtain rfl := TokenKind.name_injective (String.toList_injective hkind)
  obtain rfl : line = line' := intText_injective (String.toList_injective hline)
  obtain rfl : column = column' :=
    intText_injective (String.toList_injective (List.append_cancel_right hcolumn))
  rw [show text = text' from htext]

theorem oneLine_display (t : Token) : OneLine t.display := by
  have hopen : OneLine "(:" := by decide
  have hspace : OneLine " " := by decide
  have hplace : OneLine " [" := by decide
  have hkind : OneLine t.kind.name := by cases t.kind <;> decide
  have htext := ((hopen.append hkind).append hspace).append (oneLine_quote t.text)
  have hline := (htext.append hplace).append (oneLine_intText t.pos.line)
  exact ((hline.append hspace).append (oneLine_intText t.pos.column)).append (by decide)

namespace Expr

/-- The line of a node tells how deep it stands and which token it starts with. -/
theorem eq_of_content_eq {d d' : Nat} {e e' : Expr} (he : e.WellSpelled) (he' : e'.WellSpelled)
    (h : e.content d = e'.content d') : d = d' ∧ e.token = e'.token := by
  have hindent : ∀ n, '(' ∉ List.replicate n ' ' :=
    fun n hm => absurd (List.eq_of_mem_replicate hm) (by decide)
  obtain ⟨hspaces, h⟩ := eq_before_mark (hindent _) (hindent _) h
  have hdepth : 4 * d = 4 * d' := by simpa using congrArg List.length hspaces
  obtain ⟨hname, h⟩ := eq_before_mark e.kind.closing_notMem_name e'.kind.closing_notMem_name h
  have hkind : e.kind = e'.kind := ExprKind.name_injective (String.toList_injective hname)
  have hshown : e.shown ++ '(' :: (e.token.display.toList ++ [')']) =
      e'.shown ++ '(' :: (e'.token.display.toList ++ [')']) := (List.cons.inj (List.cons.inj h).2).2
  refine ⟨by omega, ?_⟩
  cases e with
  | atom t =>
    cases e' with
    | list p es => exact absurd hkind t.kind.atomKind_ne_expression
    | atom u =>
      -- where the text ends depends on whether it is a string, which the kind has told already
      have hstring : t.kind = .text ↔ u.kind = .text := by
        rw [← TokenKind.atomKind_eq_text, ← TokenKind.atomKind_eq_text]
        exact iff_of_eq (congrArg (· = ExprKind.text) hkind)
      rw [shown, shown, List.append_assoc, List.append_assoc] at hshown
      obtain ⟨htext, hrest⟩ := he.1.eq_before_space he'.1 hstring hshown
      have hdisplay := List.append_cancel_right (List.cons.inj hrest).2
      exact eq_of_display_eq (String.toList_injective htext) (String.toList_injective hdisplay)
  | list p es =>
    cases e' with
    | atom u => exact absurd hkind.symm u.kind.atomKind_ne_expression
    | list q fs =>
      have hdisplay := List.append_cancel_right (List.cons.inj hshown).2
      exact eq_of_display_eq rfl (String.toList_injective hdisplay)

theorem newline_notMem_content {e : Expr} (he : e.WellSpelled) (level : Nat) :
    '\n' ∉ e.content level := by
  have hkind : '\n' ∉ e.kind.name.toList := by cases e.kind <;> decide
  have hshown : '\n' ∉ e.shown := by
    cases e with
    | atom t => simpa [shown] using he.1.newline_notMem
    | list p es => simp [shown]
  have htoken : '\n' ∉ e.token.display.toList := oneLine_display e.token
  simp [content, hkind, hshown, htoken]

/-! The depths of the nodes tell the shape. -/

/-- No line follows, or one of a node that is less deep. -/
def Ended (level : Nat) (rest : List (List Char)) : Prop :=
  ∀ line ∈ rest.head?, ∃ (d : Nat) (e : Expr), d < level ∧ e.WellSpelled ∧ line = e.content d

theorem Ended.nil (level : Nat) : Ended level [] :=
  fun line hline => absurd hline (Option.not_mem_none line)

theorem Ended.lines_append {level : Nat} {rest : List (List Char)} (h : Ended level rest)
    {es : List Expr}
    (hes : AllWellSpelled es) : Ended (level + 1) (es.flatMap (lines level) ++ rest) := by
  cases es with
  | nil =>
    intro line hline
    obtain ⟨d, e, hd, he⟩ := h line hline
    exact ⟨d, e, Nat.lt_succ_of_lt hd, he⟩
  | cons e es =>
    obtain ⟨others, hlines⟩ := lines_head level e
    rw [List.flatMap_cons, hlines]
    intro line hline
    exact ⟨level, e, Nat.lt_succ_self level, hes.1, (Option.some.inj hline).symm⟩

/-- A level that has ended does not go on with a node of its own. -/
theorem Ended.ne_lines_append {level : Nat} {rest others : List (List Char)}
    (h : Ended level rest) {e : Expr} (he : e.WellSpelled) : rest ≠ e.lines level ++ others := by
  obtain ⟨tail, hlines⟩ := lines_head level e
  rw [hlines]
  rintro rfl
  obtain ⟨d, n, hd, hn, hcontent⟩ := h (e.content level) rfl
  exact absurd (eq_of_content_eq he hn hcontent).1 (Nat.ne_of_gt hd)

mutual

/-- A row of lines tells the expression that it begins with, and where the lines of that expression
end. -/
theorem eq_of_lines_eq : ∀ {e e' : Expr} {level : Nat} {rest rest' : List (List Char)},
    e.WellSpelled → e'.WellSpelled → Ended (level + 1) rest → Ended (level + 1) rest' →
    e.lines level ++ rest = e'.lines level ++ rest' → e = e' ∧ rest = rest'
  -- the rest is any row that cannot be taken for items: nothing marks the end of a list but a line
  -- that is less deep
  | atom t, atom u, level, rest, rest', ht, hu, _, _, h => by
    obtain ⟨hline, hrest⟩ := List.cons.inj h
    exact ⟨congrArg atom (eq_of_content_eq ht hu hline).2, hrest⟩
  | atom t, list p es, level, rest, rest', ht, hes, _, _, h => by
    rw [lines_list] at h
    exact absurd (congrArg Token.kind (eq_of_content_eq ht hes (List.cons.inj h).1).2) ht.2.1
  | list p es, atom t, level, rest, rest', hes, ht, _, _, h => by
    rw [lines_list] at h
    exact absurd (congrArg Token.kind (eq_of_content_eq hes ht (List.cons.inj h).1).2).symm ht.2.1
  | list p es, list q fs, level, rest, rest', hes, hfs, hrest, hrest', h => by
    rw [lines_list, lines_list] at h
    obtain ⟨hline, hitems⟩ := List.cons.inj h
    have hplace : p = q := congrArg Token.pos (eq_of_content_eq hes hfs hline).2
    obtain ⟨rfl, hends⟩ := eq_of_allLines_eq hes hfs hrest hrest' hitems
    exact ⟨by rw [hplace], hends⟩

theorem eq_of_allLines_eq : ∀ {es fs : List Expr} {level : Nat} {rest rest' : List (List Char)},
    AllWellSpelled es → AllWellSpelled fs → Ended level rest → Ended level rest' →
    es.flatMap (lines level) ++ rest = fs.flatMap (lines level) ++ rest' → es = fs ∧ rest = rest'
  | [], [], level, rest, rest', _, _, _, _, h => ⟨rfl, h⟩
  | [], f :: fs, level, rest, rest', _, hfs, hrest, _, h => by
    rw [List.flatMap_nil, List.nil_append, List.flatMap_cons, List.append_assoc] at h
    exact absurd h (hrest.ne_lines_append hfs.1)
  | e :: es, [], level, rest, rest', hes, _, _, hrest', h => by
    rw [List.flatMap_nil, List.nil_append, List.flatMap_cons, List.append_assoc] at h
    exact absurd h.symm (hrest'.ne_lines_append hes.1)
  | e :: es, f :: fs, level, rest, rest', hes, hfs, hrest, hrest', h => by
    rw [List.flatMap_cons, List.flatMap_cons, List.append_assoc, List.append_assoc] at h
    obtain ⟨rfl, hothers⟩ :=
      eq_of_lines_eq hes.1 hfs.1 (hrest.lines_append hes.2) (hrest'.lines_append hfs.2) h
    obtain ⟨rfl, hends⟩ := eq_of_allLines_eq hes.2 hfs.2 hrest hrest' hothers
    exact ⟨rfl, hends⟩

end

/-- Cut at its line feeds, an outline is a line for each node. -/
theorem outline_lines {e : Expr} (he : e.WellSpelled) :
    e.outline.toList.splitOn '\n' = e.lines 0 ++ [[]] := by
  rw [outline, toList_outlineAt]
  refine splitOn_lines fun line hline => ?_
  obtain ⟨n, hn, rfl⟩ := List.mem_map.1 hline
  have hnode : n.2 ∈ e.nodes := by
    rw [← addressed_snd]
    exact List.mem_map_of_mem hn
  exact newline_notMem_content (wellSpelled_of_mem_nodes he hnode) _

theorem eq_of_outline_eq {e e' : Expr} (he : e.WellSpelled) (he' : e'.WellSpelled)
    (h : e.outline = e'.outline) :
    e = e' := by
  have hlines : e.lines 0 ++ [] = e'.lines 0 ++ [] := by
    have hcut := outline_lines he
    rw [h, outline_lines he'] at hcut
    rw [List.append_cancel_right hcut]
  exact (eq_of_lines_eq he he' (.nil 1) (.nil 1) hlines).1

end Expr

/-- Cut at its line feeds, the outline of a node of what was read is a line for each node within it,
and nothing after the last. The lines are in preorder: their addresses go up, and are all those at
which there is a node. A line begins with four spaces for each level, and then the kind in
parentheses. So of what was read, from whichever sources, two nodes with the same outline are the
same expression: in shape and kinds, and in the texts and places of all tokens. -/
theorem outlines_show_trees :
    (∀ (source : List UInt8) (es : List Expr), readBytes source = .ok es → ∀ e ∈ nodesAll es,
      (∃ lines : List (List Char), e.outline.toList.splitOn '\n' = lines ++ [[]] ∧
        List.Forall₂ (fun line (n : List Nat × Expr) => ∃ rest,
          line = List.replicate (4 * n.1.length) ' ' ++ '(' ::
            (n.2.kind.name.toList ++ ')' :: rest)) lines e.addressed) ∧
      e.addressed.Pairwise (fun m n => List.Lex (· < ·) m.1 n.1) ∧
      ∀ path n, (path, n) ∈ e.addressed ↔ e.at? path = some n) ∧
    ∀ (source source' : List UInt8) (es es' : List Expr) (e e' : Expr),
      readBytes source = .ok es → readBytes source' = .ok es' → e ∈ nodesAll es →
        e' ∈ nodesAll es' →
      e.outline = e'.outline → e = e' := by
  have hspelled : ∀ (source : List UInt8) (es : List Expr), readBytes source = .ok es →
      ∀ e ∈ nodesAll es, e.WellSpelled :=
    fun _ _ hread _ he => wellSpelled_of_mem_nodesAll (read_wellSpelled hread) he
  refine ⟨fun source es hread e he => ⟨⟨e.lines 0, ?_, ?_⟩, addressed_sorted e,
    fun _ _ => mem_addressed e⟩, ?_⟩
  · exact outline_lines (hspelled source es hread e he)
  · refine List.forall₂_map_left_iff.2 (List.forall₂_same.2 fun n _ => ?_)
    rw [Nat.zero_add]
    exact ⟨_, rfl⟩
  · intro source source' es es' e e' hread hread' he he'
    exact eq_of_outline_eq (hspelled source es hread e he) (hspelled source' es' hread' e' he')

/-- A string over two lines that looks like a piece of an outline, and a list in a list. -/
def imitation : List UInt8 := Text.bytes "(f \"a\n ((:word [1 2]))\" (- 1))"

/-- The same with other spaces, and with more behind it. -/
def spacedImitation : List UInt8 := Text.bytes "(f \"a\n ((:word [1 2]))\" (- 1 ) ) g"

def innerImitation : Expr :=
  .list ⟨2, 19⟩ [.atom ⟨.minus, "-", ⟨2, 20⟩⟩, .atom ⟨.numeric, "1", ⟨2, 22⟩⟩]

def imitationTree : Expr :=
  .list ⟨1, 1⟩ [.atom ⟨.word, "f", ⟨1, 2⟩⟩, .atom ⟨.text, "\"a ((:word [1 2]))\"", ⟨1, 4⟩⟩,
    innerImitation]

theorem imitation_read : readBytes imitation = .ok [imitationTree] := by
  have htokens : tokenize (Text.decode imitation) =
    .ok [⟨.openList, "(", ⟨1, 1⟩⟩, ⟨.word, "f", ⟨1, 2⟩⟩,
      ⟨.text, "\"a ((:word [1 2]))\"", ⟨1, 4⟩⟩, ⟨.openList, "(", ⟨2, 19⟩⟩, ⟨.minus, "-", ⟨2, 20⟩⟩,
      ⟨.numeric, "1", ⟨2, 22⟩⟩, ⟨.closeList, ")", ⟨2, 23⟩⟩, ⟨.closeList, ")", ⟨2, 24⟩⟩,
        ⟨.endOfText, "", ⟨2, 25⟩⟩] := by
    decide +kernel
  rw [readBytes, read_of_tokenize htokens]
  rfl

theorem spacedImitation_read :
    readBytes spacedImitation = .ok [imitationTree, .atom ⟨.word, "g", ⟨2, 28⟩⟩] := by
  have htokens : tokenize (Text.decode spacedImitation) =
    .ok [⟨.openList, "(", ⟨1, 1⟩⟩, ⟨.word, "f", ⟨1, 2⟩⟩,
      ⟨.text, "\"a ((:word [1 2]))\"", ⟨1, 4⟩⟩, ⟨.openList, "(", ⟨2, 19⟩⟩, ⟨.minus, "-", ⟨2, 20⟩⟩,
      ⟨.numeric, "1", ⟨2, 22⟩⟩, ⟨.closeList, ")", ⟨2, 24⟩⟩, ⟨.closeList, ")", ⟨2, 26⟩⟩,
        ⟨.word, "g", ⟨2, 28⟩⟩,
      ⟨.endOfText, "", ⟨2, 29⟩⟩] := by
    decide +kernel
  rw [readBytes, read_of_tokenize htokens]
  rfl

theorem outlines_show_trees_imitation :
    readBytes imitation = .ok [imitationTree] ∧ innerImitation ∈ nodesAll [imitationTree] ∧
    (∃ lines, innerImitation.outline.toList.splitOn '\n' = lines ++ [[]] ∧ lines.length = 3) ∧
    (∃ lines, imitationTree.outline.toList.splitOn '\n' = lines ++ [[]] ∧ lines.length = 6) ∧
    ([2, 1], .atom ⟨.numeric, "1", ⟨2, 22⟩⟩) ∈ imitationTree.addressed ∧
    ∃ es e, readBytes spacedImitation = .ok es ∧ e ∈ nodesAll es ∧
      imitationTree.outline = e.outline ∧
      imitationTree = e := by
  have htree : imitationTree ∈ nodesAll [imitationTree] := List.mem_cons_self
  have hinner : innerImitation ∈ nodesAll [imitationTree] := .tail _ (.tail _ (.tail _ (.head _)))
  obtain ⟨⟨lines, hlines, hshown⟩, -, haddress⟩ :=
    outlines_show_trees.1 imitation _ imitation_read _ htree
  obtain ⟨⟨lines', hlines', hshown'⟩, -⟩ :=
    outlines_show_trees.1 imitation _ imitation_read _ hinner
  refine ⟨imitation_read, hinner, ⟨lines', hlines', hshown'.length_eq⟩,
    ⟨lines, hlines, hshown.length_eq⟩,
    (haddress _ _).2 rfl, _, imitationTree, spacedImitation_read, List.mem_cons_self, rfl, ?_⟩
  exact outlines_show_trees.2 imitation spacedImitation _ _ imitationTree imitationTree
    imitation_read
    spacedImitation_read htree List.mem_cons_self rfl

end ListLang
