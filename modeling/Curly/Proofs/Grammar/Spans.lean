import Mathlib.Data.List.Chain
import Curly.Proofs.Errors.Earliest
import Curly.Proofs.Grammar.Declared
import Curly.Proofs.Grammar.Nesting
import Curly.Proofs.Text.Slices

/-! The spans of a parsed program nest. Tokens lie one behind the other, and a parser that starts
behind some place lays its node between this place and the end of the token passed last. A node
starts and ends where its first and its last token do, unless these are parentheses around it. -/
namespace Curly

open Position

/-- Each token ends behind its start, and none starts before the one in front of it has ended. -/
structure InLine (tokens : List Token) : Prop where
  forward : ∀ t ∈ tokens, t.span.start ≤ t.span.stop
  chained : tokens.IsChain fun t u => t.span.stop ≤ u.span.start

/-- The walk is over closed tokens in line, and the token passed last is in line with them. -/
structure Cursor.Sorted (c : Cursor) : Prop where
  closed : Closed c.tokens
  line : InLine c.tokens
  passed : c.stop ≤ c.start

theorem Cursor.Sorted.next {c : Cursor} (sorted : c.Sorted) :
    c.next.Sorted ∧ c.stop ≤ c.next.stop ∧ (c.kind ≠ .eof → c.next.stop = c.current.span.stop) := by
  obtain ⟨before, current, ahead⟩ := c
  cases ahead with
  | nil =>
    refine ⟨sorted, le_refl _, fun other => ?_⟩
    exact absurd rfl (sorted.closed.tail other).ne_nil
  | cons next ahead =>
    have forward : current.span.start ≤ current.span.stop :=
      sorted.line.forward _ List.mem_cons_self
    have chained := List.isChain_cons_cons.mp sorted.line.chained
    refine ⟨⟨?_, ⟨?_, chained.2⟩, chained.1⟩, le_trans sorted.passed forward, fun _ => rfl⟩
    · exact @Closed.of_append [current] _ sorted.closed (List.cons_ne_nil _ _)
    · exact fun t member => sorted.line.forward t (List.mem_cons_of_mem _ member)

namespace Parse

variable {α β : Type} {p : Position}

/-- Where the token passed last ends at `p`, what the parser gives has the property `P` with the
end of the token passed last then. -/
def Lays (p : Position) (P : α → Position → Prop) (parse : Parse α) : Prop :=
  ∀ c x d, c.Sorted → c.stop = p → parse.run c = .ok x d → d.Sorted ∧ p ≤ d.stop ∧ P x d.stop

/-- The same of a parser that starts where the walk stands at the token `t`. -/
def Begins (t : Token) (p : Position) (P : α → Position → Prop) (parse : Parse α) : Prop :=
  ∀ c x d, c.Sorted → c.stop = p → c.current = t → parse.run c = .ok x d →
    d.Sorted ∧ p ≤ d.stop ∧ P x d.stop

/-- Where a token lies that is passed on the way from `p` to `q`. -/
structure Spot (p : Position) (t : Token) (q : Position) : Prop where
  start : p ≤ t.span.start
  forward : t.span.start ≤ t.span.stop
  stop : t.span.stop ≤ q

namespace Lays

variable {P : α → Position → Prop} {Q : β → Position → Prop} {parse : Parse α}
  {continuation : α → Parse β}

theorem pure {x : α} (holds : P x p) : Lays p P (pure x) := by
  rintro c y d sorted rfl ⟨⟩
  exact ⟨sorted, le_refl _, holds⟩

theorem fails (e : SyntaxError) : Lays p P (throw e : Parse α) := by
  intro c x d _ _ run
  have failed : EStateM.Result.error e c = .ok x d := run
  exact nomatch failed

theorem bind (head : Lays p P parse)
    (tail : ∀ x q, p ≤ q → P x q → Lays q Q (continuation x)) :
    Lays p Q (parse >>= continuation) := by
  intro c y e sorted here run
  rw [EStateM.run_bind] at run
  cases first : parse.run c with
  | ok x d =>
    rw [first] at run
    obtain ⟨still, onward, holds⟩ := head c x d sorted here first
    obtain ⟨left, further, result⟩ := tail x d.stop onward holds d y e still rfl run
    exact ⟨left, le_trans onward further, result⟩
  | error => simp [first] at run

theorem ite {c : Prop} [Decidable c] {yes no : Parse α} (first : Lays p P yes)
    (second : Lays p P no) : Lays p P (if c then yes else no) := by
  split
  · exact first
  · exact second

theorem mono {R : α → Position → Prop} (lays : Lays p P parse) (weaker : ∀ x q, P x q → R x q) :
    Lays p R parse := by
  intro c x d sorted here run
  obtain ⟨left, onward, holds⟩ := lays c x d sorted here run
  exact ⟨left, onward, weaker x d.stop holds⟩

theorem map {f : α → β} (head : Lays p P parse) (holds : ∀ x q, P x q → Q (f x) q) :
    Lays p Q (f <$> parse) := by
  rw [map_eq_pure_bind]
  exact head.bind fun x q _ found => .pure (holds x q found)

/-- Behind a parser that stays where it is. -/
theorem still (stays : ∀ c, ∃ x, parse.run c = .ok x c) (tail : ∀ x, Lays p Q (continuation x)) :
    Lays p Q (parse >>= continuation) := by
  intro c y d sorted here run
  obtain ⟨x, same⟩ := stays c
  rw [EStateM.run_bind, same] at run
  exact tail x c y d sorted here run

theorem kind {f : Token.Kind → Parse β} (tail : ∀ k, Lays p Q (f k)) :
    Lays p Q (Parse.kind >>= f) :=
  still (fun _ => ⟨_, rfl⟩) tail

theorem get {f : Cursor → Parse β} (tail : ∀ c, Lays p Q (f c)) : Lays p Q (get >>= f) :=
  still (fun _ => ⟨_, rfl⟩) tail

theorem current {f : Token → Parse β} (tail : ∀ t, Begins t p Q (f t)) :
    Lays p Q (Parse.current >>= f) :=
  fun c y d sorted here run => tail c.current c y d sorted here rfl run

theorem spanFrom {begin : Position} {f : Span → Parse β} (tail : Lays p Q (f ⟨begin, p⟩)) :
    Lays p Q (Parse.spanFrom begin >>= f) := by
  rintro c y d sorted rfl run
  exact tail c y d sorted rfl run

/-- Behind a look at the kind of the token that the walk stands at. -/
theorem facing {f : Token.Kind → Parse β} (tail : ∀ t, Begins t p Q (f t.kind)) :
    Lays p Q (Parse.kind >>= f) :=
  fun c y d sorted here run => tail c.current c y d sorted here rfl run

end Lays

theorem Begins.of_lays {P : α → Position → Prop} {t : Token} {parse : Parse α}
    (lays : Lays p P parse) : Begins t p P parse :=
  fun c x d sorted here _ => lays c x d sorted here

theorem Begins.ite {P : α → Position → Prop} {t : Token} {c : Prop} [Decidable c]
    {yes no : Parse α} (first : c → Begins t p P yes) (second : Begins t p P no) :
    Begins t p P (if c then yes else no) := by
  split
  · exact first ‹c›
  · exact second

theorem lays_advance : Lays p (fun t q => t.kind ≠ .eof → Spot p t q) advance := by
  rintro c t d sorted rfl ⟨⟩
  obtain ⟨left, onward, passes⟩ := sorted.next
  refine ⟨left, onward, fun other => ⟨sorted.passed, ?_, ?_⟩⟩
  · exact sorted.line.forward _ List.mem_cons_self
  · rw [passes other]
    exact le_refl _

theorem begins_advance {Q : β → Position → Prop} {t : Token} {f : Token → Parse β}
    (other : t.kind ≠ .eof) (tail : ∀ q, Spot p t q → Lays q Q (f t)) :
    Begins t p Q (advance >>= f) := by
  rintro c y e sorted here rfl run
  obtain ⟨left, onward, spot⟩ := lays_advance c c.current c.next sorted here rfl
  obtain ⟨still, further, result⟩ := tail c.next.stop (spot other) c.next y e left rfl run
  exact ⟨still, le_trans onward further, result⟩

theorem lays_expect (k : Token.Kind) (expectation : String) :
    Lays p (fun t q => k ≠ .eof → Spot p t q) (expect k expectation) := by
  intro c t d sorted here run
  unfold expect at run
  change (if c.current.kind = k then advance else _ : Parse Token).run c = _ at run
  split at run
  next same =>
    obtain ⟨left, onward, spot⟩ := lays_advance c t d sorted here run
    obtain ⟨rfl, -⟩ := EStateM.Result.ok.inj run
    exact ⟨left, onward, fun other => spot (same ▸ other)⟩
  next => split at run <;> exact nomatch run

/-- Behind a token of which no more has to be known. -/
theorem lays_past {Q : β → Position → Prop} {f : Token → Parse β} {k : Token.Kind}
    {expectation : String} (tail : ∀ t q, p ≤ q → Lays q Q (f t)) :
    Lays p Q (expect k expectation >>= f) :=
  (lays_expect k expectation).bind fun t q onward _ => tail t q onward

theorem lays_skip (k : Token.Kind) : Lays p (fun _ _ => True) (skip k) :=
  .kind fun _ => .ite (lays_advance.bind fun _ _ _ _ => .pure trivial) (.pure trivial)

section

variable {P : α → Position → Prop} {item : Parse α} {node : α → Node}

theorem lays_behind? (k : Token.Kind) (each : ∀ q, p ≤ q → Lays q P item) :
    Lays p (fun x? q => ∀ x ∈ x?, P x q) (behind? k item) := by
  refine (lays_skip k).bind fun found q onward _ => .ite ?_ (.pure nofun)
  refine (each q onward).bind fun x m _ holds => .pure ?_
  rintro y ⟨⟩
  exact holds

theorem lays_before? (k : Token.Kind) (each : Lays p P item) :
    Lays p (fun x? q => ∀ x ∈ x?, P x q) (before? k item) := by
  refine .kind fun _ => .ite (.pure nofun) ?_
  refine each.bind fun x m _ holds => .pure ?_
  rintro y ⟨⟩
  exact holds

theorem lays_comma (close : Token.Kind) : Lays p (fun _ _ => True) (comma close) :=
  .kind fun _ => .ite (.pure trivial) (lays_past fun _ _ _ => .pure trivial)

/-- The parser lays one node behind any place. -/
def LaysEach (node : α → Node) (item : Parse α) : Prop :=
  ∀ p, Lays p (fun x q => Laid p [node x] q) item

variable (each : LaysEach node item)

include each

theorem lays_separated (close : Token.Kind) (bound : Nat) :
    Lays p (fun xs q => Laid p (xs.map node) q) (separated close item bound) := by
  induction bound generalizing p with
  | zero => exact .pure (le_refl p)
  | succ bound ih =>
    refine .kind fun _ => .ite (.pure (le_refl p)) ?_
    refine (each p).bind fun first q _ laid => (lays_comma close).bind fun _ m onward _ => ?_
    exact ih.bind fun others n _ rest => .pure (laid.append onward rest)

theorem lays_enclosed (close : Token.Kind) :
    Lays p (fun xs q => Laid p (xs.map node) q) (enclosed close item) :=
  .get fun _ => (lays_separated each close _).bind fun _ _ _ laid =>
    lays_past fun _ _ onward => .pure (laid.wider (le_refl p) onward)

theorem lays_upTo (stops : Token.Kind → Bool) (bound : Nat) :
    Lays p (fun xs q => Laid p (xs.map node) q) (upTo stops item bound) := by
  induction bound generalizing p with
  | zero => exact .pure (le_refl p)
  | succ bound ih =>
    refine .current fun t => .of_lays (.ite (.pure (le_refl p)) (.ite (.fails _) ?_))
    refine (each p).bind fun first q _ laid => ih.bind fun others n _ rest => .pure ?_
    exact laid.append (le_refl q) rest

end

/-- A node that begins with a token and has its parts behind it. -/
theorem laid_from {x : Node} {t : Token} {m q n : Position} {parts : List Node}
    (order : x.parts.Pairwise Node.Before → x.Ordered) (same : x.parts = parts)
    (span : x.span = ⟨t.span.start, q⟩) (spot : Spot p t m) (laid : Laid m parts n) (gap : n ≤ q) :
    Laid p [x] q := by
  have before : t.span.start ≤ m := le_trans spot.forward spot.stop
  refine .node order ?_ ?_ ?_ <;> rw [span]
  · exact spot.start
  · exact same ▸ laid.wider before gap
  · exact le_refl q

section

variable {inner : Inner Parse} {left : Expr} {m : Position}

theorem lays_primary : LaysEach .expr primary := by
  intro p
  refine lays_advance.bind fun t q _ spot => ?_
  have leaf {e : Expr} (order : (Node.expr e).parts.Pairwise Node.Before → (Node.expr e).Ordered)
      (none : e.parts = []) (span : e.span = t.span) (other : t.kind ≠ .eof) :
      Lays q (fun x q => Laid p [.expr x] q) (pure e) := by
    obtain ⟨begins, forward, stops⟩ := spot other
    refine .pure (.leaf order none ?_ ?_ ?_) <;> rwa [Node.span, span]
  split
  next kind =>
    split
    next => exact leaf id rfl rfl (by simp [kind])
    next => exact .fails _
  next kind =>
    split
    next => exact leaf id rfl rfl (by simp [kind])
    next => exact .fails _
  next kind => exact leaf id rfl rfl (by simp [kind])
  next kind => exact leaf id rfl rfl (by simp [kind])
  next kind => exact leaf id rfl rfl (by simp [kind])
  next kind => exact leaf id rfl rfl (by simp [kind])
  next => exact .fails _

theorem ne_eof_of_unaryOp {k : Token.Kind} {op : UnaryOp} (known : k.unaryOp? = some op) :
    k ≠ .eof := by
  rintro rfl
  exact nomatch known

theorem lays_stepped (laid : Laid m [.expr left] p) :
    Lays p (fun e q => Laid m [.expr e] q) (stepped left) := by
  refine lays_advance.bind fun t q _ spot => ?_
  cases known : t.kind.unaryOp? with
  | none => exact .fails _
  | some op =>
    obtain ⟨begins, nested, stops⟩ := laid
    have after := spot (ne_eof_of_unaryOp known)
    have reach : left.span.stop ≤ t.span.stop :=
      le_trans stops (le_trans after.start after.forward)
    exact .pure (.node id begins ⟨le_refl _, nested, reach⟩ after.stop)

/-- The node of two operands, the one on the left first. -/
theorem laid_binary {op : BinaryOp} {right : Expr} {q n : Position} (first : Laid m [.expr left] p)
    (gap : p ≤ q) (second : Laid q [.expr right] n) :
    Laid m [.expr (.binary op left right ⟨left.start, right.span.stop⟩)] n := by
  obtain ⟨begins, nested, stops⟩ := first
  obtain ⟨starts, found, ends⟩ := second
  have apart : left.span.stop ≤ right.span.start := le_trans stops (le_trans gap starts)
  exact .node id begins ⟨le_refl _, nested, apart, found, le_refl _⟩ ends

variable (each : ∀ power, LaysEach .expr (inner power))

include each

theorem lays_prefixed : LaysEach .expr (prefixed inner) := by
  intro p
  refine lays_advance.bind fun t q _ spot => ?_
  cases known : t.kind.unaryOp? with
  | none => exact .fails _
  | some op =>
    refine (each .unary q).bind fun operand n _ ⟨begins, nested, stops⟩ => .pure ?_
    have before := spot (ne_eof_of_unaryOp known)
    have reach : t.span.start ≤ operand.span.start :=
      le_trans before.forward (le_trans before.stop begins)
    exact .node id before.start ⟨reach, nested, le_refl _⟩ stops

theorem lays_grouped : LaysEach .expr (grouped inner) := fun _ =>
  lays_advance.bind fun _ q behind _ => (each .lowest q).bind fun _ _ _ laid =>
    lays_past fun _ _ onward => .pure (laid.wider behind onward)

theorem lays_combined (laid : Laid m [.expr left] p) (power : Power) :
    Lays p (fun e q => Laid m [.expr e] q) (combined inner left power) := by
  refine lays_advance.bind fun t q behind _ => ?_
  cases t.kind.binaryOp? with
  | none => exact .fails _
  | some op => exact (each power q).bind fun _ _ _ right => .pure (laid_binary laid behind right)

theorem lays_assigned (laid : Laid m [.expr left] p) :
    Lays p (fun e q => Laid m [.expr e] q) (assigned inner left) := by
  refine lays_advance.bind fun t q behind _ => ?_
  cases left with
  | symbol name =>
    exact (each .lowest q).bind fun _ _ _ right => .pure (laid_binary laid behind right)
  | _ => exact .fails _

theorem lays_arguments : Lays p (fun es q => Laid p (es.map .expr) q) (arguments inner) :=
  lays_past fun _ _ behind => .mono (lays_enclosed (each .lowest) _) fun _ _ laid =>
    laid.wider behind (le_refl _)

theorem lays_called (laid : Laid m [.expr left] p) :
    Lays p (fun e q => Laid m [.expr e] q) (called inner left) := by
  cases left with
  | symbol name =>
    refine (lays_arguments each).bind fun args q _ behind => .spanFrom (.pure ?_)
    obtain ⟨begins, nested, stops⟩ := laid
    have callee : Laid name.span.start [.name name] p :=
      .leaf id rfl (le_refl _) nested.forward stops
    exact .node id begins (callee.append (le_refl p) behind) (le_refl q)
  | _ => exact .still (fun _ => ⟨_, rfl⟩) fun _ => .fails _

theorem lays_continued (floor : Power) (room : Nat) (laid : Laid m [.expr left] p) :
    Lays p (fun e q => Laid m [.expr e] q) (continued .full inner floor room left) := by
  -- The place `m` before the whole expression stays; what has been read grows behind it.
  induction room generalizing p left with
  | zero => exact .pure laid
  | succ room ih =>
    refine .kind fun k => ?_
    split
    next => exact .pure laid
    next power follow _ =>
      refine .ite (.pure laid) (.bind ?_ fun _ _ _ more => ih more)
      cases follow with
      | assignment => exact lays_assigned each laid
      | operand => exact lays_combined each laid power
      | step => exact lays_stepped laid
      | arguments => exact lays_called each laid

end

theorem lays_expressionWithin (room : Nat) (floor : Power) :
    LaysEach .expr (expressionWithin .full room floor) := by
  induction room generalizing floor with
  | zero => exact fun p => .current fun _ => .of_lays (.fails _)
  | succ room ih =>
    refine fun p => .current fun t => .of_lays ?_
    split
    next => exact .fails _
    next start _ =>
      refine .bind ?_ fun left q _ laid => lays_continued ih floor room laid
      cases start with
      | primary => exact lays_primary p
      | operator => exact lays_prefixed ih p
      | group => exact lays_grouped ih p

theorem lays_expression (floor : Power) : LaysEach .expr (expression .full floor) :=
  fun p => .get fun _ => lays_expressionWithin _ floor p

section

theorem lays_condition : LaysEach .expr (condition .full) := fun _ =>
  lays_past fun _ _ behind => (lays_expression .lowest _).bind fun _ _ _ laid =>
    lays_past fun _ _ onward => .pure (laid.wider behind onward)

theorem sorted_of_ty {c d : Cursor} {x : Ty} (sorted : c.Sorted)
    (run : (ty .full).run c = .ok x d) : d.Sorted ∧ c.start ≤ d.stop := by
  have looked (f : Token → Parse Ty) : (current >>= f).run c = (f c.current).run c := rfl
  cases known : c.kind.ty? with
  | none =>
    have fails : (ty .full).run c = .error (.unfitting c.current "expected a type name") c := by
      rw [ty, looked, show Grammar.full.ty? c.current.kind = none from known]
      rfl
    cases fails.symm.trans run
  | some found =>
    have passed : (ty .full).run c = (advance >>= fun _ => pure found).run c := by
      rw [ty, looked, show Grammar.full.ty? c.current.kind = some found from known]
    obtain ⟨-, rfl⟩ := EStateM.Result.ok.inj (passed.symm.trans run)
    obtain ⟨left, -, passes⟩ := sorted.next
    have other : c.kind ≠ .eof := by
      intro ends
      simp [ends, Token.Kind.ty?] at known
    rw [passes other]
    exact ⟨left, sorted.line.forward _ List.mem_cons_self⟩

/-- Behind a type, which is one token. -/
theorem lays_type {Q : β → Position → Prop} {f : Position → Ty → Parse β}
    (tail : ∀ begin ty q, p ≤ begin → begin ≤ q → Lays q Q (f begin ty)) :
    Lays p Q (start >>= fun begin => ty .full >>= f begin) := by
  rintro c y e sorted rfl run
  change (ty .full >>= f c.start).run c = _ at run
  rw [EStateM.run_bind] at run
  cases first : (ty .full).run c with
  | ok x d =>
    rw [first] at run
    obtain ⟨still, passed⟩ := sorted_of_ty sorted first
    obtain ⟨left, further, result⟩ := tail c.start x d.stop sorted.passed passed d y e still rfl run
    exact ⟨left, le_trans sorted.passed (le_trans passed further), result⟩
  | error => simp [first] at run

variable {m begin : Position} {t : Token}

theorem lays_initialized (before : m ≤ begin) (passed : begin ≤ p) (ty : Ty) (name : String) :
    Lays p (fun s q => Laid m [.stmt s] q) (initialized .full begin ty name) := by
  refine (lays_behind? .assignment fun q behind => .mono (lays_expression .lowest q)
    fun e n laid => laid.wider behind (le_refl n)).bind fun initial q onward each => ?_
  refine lays_past fun _ n further => .spanFrom (.pure ?_)
  have parts : Laid p (initial.toList.map .expr) q := .optional onward each
  exact .node id before (parts.wider passed further) (le_refl n)

theorem lays_variableStatement : LaysEach .stmt (variableStatement .full) := fun _ =>
  lays_type fun _ ty _ before passed => lays_past fun name _ onward =>
    lays_initialized before (le_trans passed onward) ty name.value

theorem lays_param : LaysEach .param (param .full) := fun _ =>
  lays_type fun _ _ _ before passed => lays_past fun _ q onward =>
    .spanFrom (.pure (.leaf id rfl before (le_trans passed onward) (le_refl q)))

theorem lays_params : Lays p (fun ps q => Laid p (ps.map .param) q) (params .full) := by
  have none (p : Position) : Lays p (fun _ _ => True) noParams :=
    .get fun _ => .ite (lays_advance.bind fun _ _ _ _ => .pure trivial) (.pure trivial)
  refine lays_past fun _ q behind => (none q).bind fun _ n onward _ => ?_
  refine .mono (lays_enclosed lays_param _) fun _ _ laid => ?_
  exact laid.wider (le_trans behind onward) (le_refl _)

theorem begins_inclusion (other : t.kind ≠ .eof) :
    Begins t p (fun s q => Laid p [.stmt s] q) inclusion :=
  begins_advance other fun _ spot => .pure (.leaf id rfl spot.start spot.forward spot.stop)

theorem lays_value :
    LaysEach .name (do let t ← expect .identifier; return Identifier.mk t.value t.span) := by
  refine fun p => (lays_expect _ _).bind fun t q _ passes => .pure ?_
  have spot := passes nofun
  exact .leaf id rfl spot.start spot.forward spot.stop

theorem begins_enumeration (other : t.kind ≠ .eof) :
    Begins t p (fun s q => Laid p [.stmt s] q) enumeration := by
  refine begins_advance other fun q spot => lays_past fun _ n behind => ?_
  refine (lays_expect _ _).bind fun list r _ opens => ?_
  refine (lays_enclosed lays_value _).bind fun values k onward laid => .spanFrom ?_
  have names : Laid n [.names values ⟨list.span.start, k⟩] k :=
    laid_from id rfl rfl (opens nofun) laid (le_refl k)
  refine (lays_skip _).bind fun _ l further _ => .spanFrom (.pure ?_)
  exact laid_from id rfl rfl spot (names.wider behind further) (le_refl l)

theorem begins_giveBack (other : t.kind ≠ .eof) :
    Begins t p (fun s q => Laid p [.stmt s] q) (giveBack .full) := by
  refine begins_advance other fun q spot => ?_
  refine (lays_before? _ (lays_expression .lowest q)).bind fun value n onward each => ?_
  refine lays_past fun _ k further => .spanFrom (.pure ?_)
  exact laid_from id rfl rfl spot (.optional onward each) further

theorem begins_leave (other : t.kind ≠ .eof) :
    Begins t p (fun s q => Laid p [.stmt s] q) leave := by
  refine begins_advance other fun q spot => lays_past fun _ n onward => .spanFrom (.pure ?_)
  exact laid_from id rfl rfl spot (le_refl q) onward

theorem begins_print (other : t.kind ≠ .eof) :
    Begins t p (fun s q => Laid p [.stmt s] q) (print .full) := by
  refine begins_advance other fun q spot => ?_
  refine (lays_arguments lays_expression).bind fun args n _ laid => ?_
  exact lays_past fun _ k further => .spanFrom (.pure (laid_from id rfl rfl spot laid further))

/-- An expression as a statement. -/
theorem laid_evaluate {e : Expr} {q n : Position} (laid : Laid p [.expr e] q) (gap : q ≤ n) :
    Laid p [.stmt (.evaluate e ⟨e.start, n⟩)] n :=
  .node id laid.1 ⟨le_refl _, laid.2.1, le_trans laid.2.2 gap⟩ (le_refl n)

theorem lays_evaluate : LaysEach .stmt (evaluate .full) := fun p =>
  (lays_expression .lowest p).bind fun _ _ _ laid => lays_past fun _ _ onward =>
    .spanFrom (.pure (laid_evaluate laid onward))

theorem lays_initial :
    Lays p (fun s? q => ∀ s ∈ s?, Laid p [.stmt s] q) (initial .full) := by
  refine (lays_skip _).bind fun skipped q behind _ => .ite (.pure nofun) ?_
  refine .kind fun _ => .ite ?_ ?_
  · refine (lays_variableStatement q).map fun s n laid => ?_
    rintro t ⟨⟩
    exact laid.wider behind (le_refl n)
  · refine (lays_expression .lowest q).bind fun e n _ laid => lays_past fun _ k onward => .pure ?_
    rintro t ⟨⟩
    have laid : Laid q [.stmt (.evaluate e e.span)] e.span.stop :=
      laid_evaluate ⟨laid.1, laid.2.1, le_refl _⟩ (le_refl _)
    exact .wider behind laid (le_trans ‹Laid q [.expr e] n›.2.2 onward)

variable {inner : Parse Stmt} (each : LaysEach .stmt inner)

include each

theorem lays_statements (stops : Token.Kind → Bool) :
    Lays p (fun body q => Laid p (body.map .stmt) q) (statements inner stops) :=
  .get fun _ => lays_upTo each stops _

theorem lays_block : LaysEach .block (block inner) := by
  refine fun p => (lays_expect _ _).bind fun brace q _ opens => ?_
  refine (lays_statements each _).bind fun body n _ laid => ?_
  refine lays_past fun _ k further => .spanFrom (.pure ?_)
  exact laid_from id rfl rfl (opens nofun) laid further

theorem lays_body : LaysEach .block (body inner) := by
  refine fun p => .kind fun _ => .ite (lays_block each p) ?_
  refine (each p).bind fun s q _ ⟨begins, nested, stops⟩ => .pure ?_
  exact .node id begins ⟨le_refl _, nested, le_refl _⟩ stops

theorem lays_arm : LaysEach .block (arm inner) := by
  refine fun p => .kind fun _ => .ite (lays_block each p) ?_
  refine (lays_expect _ _).bind fun colon q _ passes => ?_
  refine (lays_statements each _).bind fun body n onward laid => .spanFrom (.pure ?_)
  have spot := passes nofun
  exact .node id (le_trans spot.start spot.forward) (laid.wider spot.stop (le_refl n)) (le_refl n)

theorem begins_mainFunction (other : t.kind ≠ .eof) :
    Begins t p (fun s q => Laid p [.stmt s] q) (mainFunction inner) := by
  refine begins_advance other fun q spot => ?_
  refine (lays_behind? (P := fun _ _ => True) _ fun _ _ =>
    .mono (lays_expect _ _) fun _ _ _ => trivial).bind fun _ n behind _ => ?_
  refine (lays_block each n).bind fun body k _ laid => .spanFrom (.pure ?_)
  exact laid_from id rfl rfl spot (laid.wider behind (le_refl k)) (le_refl k)

theorem lays_declaration : LaysEach .stmt (declaration .full inner) := by
  refine fun p => lays_type fun begin ty q before passed => ?_
  refine (lays_skip _).bind fun isMain n onward _ => ?_
  have reach : begin ≤ n := le_trans passed onward
  refine .ite ?_ ?_
  · refine lays_past fun _ k first => lays_past fun _ l second => ?_
    refine (lays_block each l).bind fun body r _ laid => .spanFrom (.pure ?_)
    have inside := laid.wider (le_trans reach (le_trans first second)) (le_refl r)
    exact .node id before inside (le_refl r)
  · refine lays_past fun name k onward => .kind fun _ => ?_
    have reach : begin ≤ k := le_trans reach onward
    refine .ite (lays_initialized before reach ty name.value) ?_
    refine lays_params.bind fun ps l _ laid => (lays_skip _).bind fun isPrototype r gap _ => ?_
    refine .ite (.spanFrom (.pure ?_)) ?_
    · exact .node id before (laid.wider reach gap) (le_refl r)
    · refine (lays_block each r).bind fun body s _ inside => .spanFrom (.pure ?_)
      exact .node id before (.wider reach (laid.append gap inside) (le_refl s)) (le_refl s)

theorem begins_branch (other : t.kind ≠ .eof) :
    Begins t p (fun s q => Laid p [.stmt s] q) (branch .full inner) := by
  refine begins_advance other fun q spot => (lays_condition q).bind fun e n _ condition => ?_
  refine (lays_body each n).bind fun yes k _ first => ?_
  refine (lays_behind? _ fun l behind => .mono (lays_body each l) fun b r laid =>
    laid.wider behind (le_refl r)).bind fun no l onward second => .spanFrom (.pure ?_)
  have bodies := first.append (le_refl k) (.optional onward second)
  exact laid_from id rfl rfl spot (condition.append (le_refl n) bodies) (le_refl l)

theorem begins_whileLoop (other : t.kind ≠ .eof) :
    Begins t p (fun s q => Laid p [.stmt s] q) (whileLoop .full inner) := by
  refine begins_advance other fun q spot => (lays_condition q).bind fun e n _ condition => ?_
  refine (lays_body each n).bind fun body k _ laid => .spanFrom (.pure ?_)
  exact laid_from id rfl rfl spot (condition.append (le_refl n) laid) (le_refl k)

theorem begins_doLoop (other : t.kind ≠ .eof) :
    Begins t p (fun s q => Laid p [.stmt s] q) (doLoop .full inner) := by
  refine begins_advance other fun q spot => (lays_body each q).bind fun body n _ laid => ?_
  refine lays_past fun _ k gap => (lays_condition k).bind fun e l _ condition => ?_
  refine lays_past fun _ r further => .spanFrom (.pure ?_)
  exact laid_from id rfl rfl spot (laid.append gap condition) further

theorem begins_forLoop (other : t.kind ≠ .eof) :
    Begins t p (fun s q => Laid p [.stmt s] q) (forLoop .full inner) := by
  refine begins_advance other fun q spot => lays_past fun _ q' opened => ?_
  refine lays_initial.bind fun initial n onward first => ?_
  refine (lays_before? _ (lays_expression .lowest n)).bind fun condition k behind second => ?_
  refine lays_past fun _ k' gap => ?_
  refine (lays_before? _ (lays_expression .lowest k')).bind fun update l after third => ?_
  refine lays_past fun _ l' closed => (lays_body each l').bind fun body r _ laid => ?_
  refine .spanFrom (.pure ?_)
  have head : Laid q' (initial.toList.map .stmt ++ condition.toList.map .expr) k :=
    .append (.optional onward first) (le_refl n) (.optional behind second)
  have parts := (head.append gap (.optional after third)).append closed laid
  exact laid_from id rfl rfl spot (parts.wider opened (le_refl r)) (le_refl r)

/-- Where the arms of a switch lie: those with a value in line, and the other one apart from
them, unless it was read before. -/
def Spread (p : Position) (known : Option Block) (found : List Case × Option Block)
    (q : Position) : Prop :=
  Laid p (found.1.map .arm) q ∧ (found.2 = known ∨ known = none ∧
    ∀ b ∈ found.2, Laid p [.block b] q ∧ ∀ c ∈ found.1, c.span.Apart b.span)

theorem lays_arms (bound : Nat) (known : Option Block) :
    Lays p (Spread p known) (arms .full inner bound known) := by
  -- An arm without a value that is read later lies behind the arms before it; one that was read
  -- here lies in front of the arms behind it, and no other one follows.
  induction bound generalizing p known with
  | zero => exact .pure ⟨le_refl p, .inl rfl⟩
  | succ bound ih =>
    refine .current fun t => .ite (fun _ => .of_lays (.pure ⟨le_refl p, .inl rfl⟩)) ?_
    refine .ite (fun isCase => ?_) (.ite (fun ⟨isDefault, vacant⟩ => ?_) (.of_lays ?_))
    · refine begins_advance (by simp [isCase]) fun q spot => ?_
      refine (lays_expression .lowest q).bind fun value n _ laid => ?_
      refine (lays_arm each n).bind fun body k _ inside => .spanFrom ?_
      have first : Laid p [.arm ⟨value, body, ⟨t.span.start, k⟩⟩] k :=
        laid_from id rfl rfl spot (laid.append (le_refl n) inside) (le_refl k)
      refine (ih known).bind fun (others, found) l onward ⟨rest, last⟩ => .pure ⟨?_, ?_⟩
      · exact first.append (le_refl k) rest
      · refine last.imp_right fun ⟨vacant, placed⟩ => ⟨vacant, fun b member => ?_⟩
        obtain ⟨block, apart⟩ := placed b member
        refine ⟨block.wider first.le (le_refl l), List.forall_mem_cons.mpr ⟨.inl block.1, apart⟩⟩
    · refine begins_advance (by simp [isDefault]) fun q spot => ?_
      refine (lays_arm each q).bind fun body k behind block => ?_
      have onward : p ≤ q := le_trans spot.start (le_trans spot.forward spot.stop)
      refine .mono (ih (some body)) fun (others, found) l ⟨rest, last⟩ => ?_
      obtain rfl : found = some body := last.resolve_right fun absent => nomatch absent.1
      refine ⟨rest.wider (le_trans onward behind) (le_refl l), .inr ⟨?_, ?_⟩⟩
      · simpa using vacant
      · rintro b ⟨⟩
        refine ⟨block.wider onward rest.le, fun c member => .inr ?_⟩
        have later := rest.of_mem (List.mem_map_of_mem member)
        exact le_trans block.2.2 later.1
    · exact .ite (.fails _) (.fails _)

theorem begins_switch (other : t.kind ≠ .eof) :
    Begins t p (fun s q => Laid p [.stmt s] q) (switch .full inner) := by
  refine begins_advance other fun q spot => (lays_condition q).bind fun e n _ condition => ?_
  refine lays_past fun _ k opened => .get fun c => ?_
  refine (lays_arms each _ none).bind fun (cases, fallback) l _ ⟨arms, last⟩ => ?_
  refine lays_past fun _ r closed => .spanFrom (.pure ?_)
  obtain ⟨after, nested, stops⟩ := condition
  have reach : e.span.stop ≤ k := le_trans stops opened
  have before : t.span.start ≤ e.span.start :=
    le_trans spot.forward (le_trans spot.stop after)
  refine .switch spot.start ?_ (fun b member => ?_) (le_refl r)
  · exact ⟨before, nested, arms.wider reach closed⟩
  · obtain ⟨-, placed⟩ := last.resolve_left fun vacant : fallback = none => by
      simp [vacant] at member
    obtain ⟨block, apart⟩ := placed b member
    exact ⟨block.wider reach closed, apart⟩

theorem begins_formed (other : t.kind ≠ .eof) (form : Form) :
    Begins t p (fun s q => Laid p [.stmt s] q) (formed .full inner form) := by
  cases form with
  | declaration => exact .of_lays (lays_declaration each p)
  | main => exact begins_mainFunction each other
  | block =>
    refine .of_lays ((lays_block each p).map fun body q ⟨begins, nested, stops⟩ => ?_)
    exact .node id begins ⟨le_refl _, nested, le_refl _⟩ stops
  | branch => exact begins_branch each other
  | whileLoop => exact begins_whileLoop each other
  | doLoop => exact begins_doLoop each other
  | forLoop => exact begins_forLoop each other
  | switch => exact begins_switch each other
  | enumeration => exact begins_enumeration other
  | inclusion => exact begins_inclusion other
  | giveBack => exact begins_giveBack other
  | leave => exact begins_leave other
  | print => exact begins_print other

end

theorem lays_statementWithin (room : Nat) : LaysEach .stmt (statementWithin .full room) := by
  induction room with
  | zero => exact lays_evaluate
  | succ room ih =>
    refine fun p => .facing fun t => ?_
    split
    next => exact .of_lays (lays_evaluate p)
    next form known =>
      refine begins_formed ih ?_ form
      intro ends
      rw [ends] at known
      cases known

theorem lays_statement : LaysEach .stmt (statement .full) :=
  fun p => .get fun _ => lays_statementWithin _ p

/-- A program reaches from its first token to the end mark. -/
theorem nested_of_run {c d : Cursor} {x : Program} (sorted : c.Sorted) (fresh : c.passed = none)
    (run : (program .full).run c = .ok x d) : (Node.program x).Nested := by
  have here : c.stop = c.start := by rw [Cursor.stop, fresh, Option.getD_none]
  unfold program at run
  change (statements (statement .full) (· = Token.Kind.eof) >>= fun body =>
    start >>= fun finish => pure (Program.mk body ⟨c.start, finish⟩)).run c = _ at run
  rw [EStateM.run_bind] at run
  cases first : (statements (statement .full) (· = Token.Kind.eof)).run c with
  | ok body e =>
    rw [first] at run
    obtain ⟨rfl, rfl⟩ := EStateM.Result.ok.inj run
    obtain ⟨still, _, laid⟩ := lays_statements lays_statement _ c body e sorted here first
    have whole : Laid c.start [.program ⟨body, ⟨c.start, e.start⟩⟩] e.start :=
      .node id (le_refl _) (laid.wider (le_refl _) still.passed) (le_refl _)
    exact whole.2.1
  | error => simp [first] at run

end Parse

theorem Position.le_afterAll (p : Position) (text : List Char) : p ≤ p.afterAll text := by
  induction text generalizing p with
  | nil => exact le_refl p
  | cons c text ih => exact le_trans (le_after p c) (ih (p.after c))

theorem Position.behind_le (before text : List Char) :
    behind before ≤ behind (before ++ text) := by
  rw [← afterAll_behind]
  exact le_afterAll (behind before) text

/-- The tokens that a text is cut into lie in line behind what is in front of it. -/
theorem inLine_tokensOf (before : List Char) (slices : List Slice) :
    InLine (tokensOf before slices) ∧
      ∀ t ∈ (tokensOf before slices).head?, behind before ≤ t.span.start := by
  induction slices generalizing before with
  | nil =>
    refine ⟨⟨List.forall_mem_singleton.mpr (le_refl _), .singleton _⟩, ?_⟩
    rintro t ⟨⟩
    exact le_refl _
  | cons slice slices ih =>
    obtain ⟨line, after⟩ := ih (before ++ slice.lexeme)
    have wide := behind_le before slice.lexeme
    rw [tokensOf]
    cases found : slice.token? before with
    | none => exact ⟨line, fun t first => le_trans wide (after t first)⟩
    | some t =>
      obtain ⟨_, _, rfl⟩ := Option.map_eq_some_iff.mp found
      refine ⟨⟨?_, ?_⟩, ?_⟩
      · exact List.forall_mem_cons.mpr ⟨wide, line.forward⟩
      · exact List.isChain_cons.mpr ⟨after, line.chained⟩
      · rintro u ⟨⟩
        exact le_refl _

theorem closed_tokensOf (before : List Char) (slices : List Slice) :
    Closed (tokensOf before slices) := by
  induction slices generalizing before with
  | nil => exact ⟨_, rfl, rfl⟩
  | cons slice slices ih => exact (ih _).append

theorem sorted_tokensOf (slices : List Slice) :
    (Cursor.ofTokens (tokensOf [] slices)).Sorted ∧
      (Cursor.ofTokens (tokensOf [] slices)).passed = none := by
  have closed := closed_tokensOf [] slices
  obtain ⟨line, -⟩ := inLine_tokensOf [] slices
  rw [Parse.ofTokens_closed closed]
  obtain ⟨t, ahead, same⟩ := List.exists_cons_of_ne_nil closed.ne_nil
  rw [same] at closed line ⊢
  exact ⟨⟨closed, line, le_refl _⟩, rfl⟩

/-- In a program that is read from a text the spans nest: every node ends behind its start and has
its parts within it, one behind the other. -/
theorem nested_of_readProgram {source : String} {p : Program}
    (accepted : readProgram source = .ok p) : (Node.program p).Nested := by
  obtain ⟨tokens, scanned, parsed⟩ := tokens_of_readProgram accepted
  have lexed : Lexed [] source.toList (tokenize source) := lexed_scan [] source.toList
  rw [scanned] at lexed
  obtain ⟨slices⟩ := lexed
  obtain ⟨sorted, fresh⟩ := sorted_tokensOf slices
  unfold Parse.ofTokens Parse.read at parsed
  split at parsed
  next q c run =>
    obtain rfl := Except.ok.inj parsed
    exact Parse.nested_of_run sorted fresh run
  next => exact nomatch parsed

/-- The arm for all other values stands first here and is empty. -/
def winding : String :=
  "int f(int a, int b);\nint g(int n) \x7b\n" ++
  "  for (int i = 0; i < (n); i++) f(i, (n + 1) * -i);\n" ++
  "  switch (n) \x7b default: case 1: break; case 2 \x7b print(n++); \x7d \x7d\n  return n;\n\x7d\n"

theorem winding_nested : ∃ p, readProgram winding = .ok p ∧
    p.body.map Stmt.span = [⟨⟨1, 1⟩, ⟨1, 21⟩⟩, ⟨⟨2, 1⟩, ⟨6, 2⟩⟩] ∧ (Node.program p).Nested := by
  have spans : (readProgram winding).toOption.map (fun p => p.body.map Stmt.span) =
      some [⟨⟨1, 1⟩, ⟨1, 21⟩⟩, ⟨⟨2, 1⟩, ⟨6, 2⟩⟩] := by decide +kernel
  cases read : readProgram winding with
  | error e => simp [read, Except.toOption] at spans
  | ok p => exact ⟨p, rfl, by simpa [read, Except.toOption] using spans, nested_of_readProgram read⟩

end Curly
