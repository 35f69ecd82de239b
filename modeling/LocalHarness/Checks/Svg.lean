import LocalHarness.Checks.Extract
import LocalHarness.Library.Decimal
import LocalHarness.Library.Regex

/-! # Whether a drawing draws anything

The shapes of a document are counted. A shape that is written with no extent is not, and what stands around a
shape is not looked at.
-/

namespace LocalHarness.Checks.Svg

open LocalHarness.Library LocalHarness.Library.Find

/-- An element of `ElementTree`, with the text before its first child and the one after it. -/
inductive Element
  | mk (tag : String) (attrs : List (String × String)) (text tail : String) (children : List Element)

namespace Element

def tag : Element → String
  | mk tag .. => tag

def attrs : Element → List (String × String)
  | mk _ attrs .. => attrs

def children : Element → List Element
  | mk _ _ _ _ children => children

/-- `el.get(a) or ""` -/
def get (el : Element) (a : String) : String :=
  (el.attrs.lookup a).getD ""

end Element

mutual

/-- `el.iter()`: an element and what is in it. -/
def Element.iter : Element → List Element
  | .mk tag attrs text tail children => .mk tag attrs text tail children :: iterAll children

def iterAll : List Element → List Element
  | [] => []
  | el :: rest => el.iter ++ iterAll rest

end

def SVG_NS : List Char :=
  "\x7bhttp://www.w3.org/2000/svg\x7d".toList

/-- `s.replace(piece, "")`, when the first characters are of one found already. -/
def without (piece : List Char) : Nat → List Char → List Char
  | _, [] => []
  | within + 1, _ :: rest => without piece within rest
  | 0, c :: rest =>
      if piece.isPrefixOf (c :: rest) then without piece (piece.length - 1) rest
      else c :: without piece 0 rest

/-- `e.tag.replace(SVG_NS, "")` -/
def name (el : Element) : String :=
  .ofList (without SVG_NS 0 el.tag.toList)

/-- Elements that put marks on the canvas. -/
def DRAWING : List String :=
  ["path", "circle", "rect", "ellipse", "line", "polyline", "polygon", "text", "use", "image", "g"]

/-- Attributes that, at zero, make a shape invisible. -/
def EXTENT_ATTRS : List (String × List String) :=
  [("rect", ["width", "height"]), ("circle", ["r"]), ("ellipse", ["rx", "ry"]), ("line", []), ("path", []),
    ("polyline", []), ("polygon", []), ("text", [])]

/-- `float(text) == 0`; the least float is twice this. -/
def isZero (s : List Char) : Bool :=
  match Decimal.number (.ofList s) with
  | some (.finite q) => |q| ≤ 1 / 2 ^ 1075
  | _ => false

def strip (s : String) : List Char :=
  Extract.strip s.toList

/-- `raw.rstrip("px%")` -/
def bare (s : List Char) : List Char :=
  s.rdropWhile fun c => c ∈ "px%".toList

def hasExtent (el : Element) : Bool :=
  match (EXTENT_ATTRS.lookup (name el)).getD [] with
  | [] => !(name el = "path" && strip (el.get "d") = [])
  | attrs => attrs.all fun a => strip (el.get a) = [] || !isZero (bare (strip (el.get a)))

structure CheckResult where
  ok : Bool
  reason : String
  warnings : List String
  shape_count : Nat

/-- A letter in either case, with the letters of other scripts that are taken for an `i`. -/
def eitherCase (c : Char) : Re :=
  .one fun d => d = c ∨ d = c.toUpper ∨ c = 'i' ∧ (d = 'İ' ∨ d = 'ı')

def anyCase : List Char → Re
  | [] => .nothing
  | c :: rest => .seq (eitherCase c) (anyCase rest)

/-- `data:image/(png|jpe?g|gif|webp)` -/
def RASTER : Re :=
  .seq (anyCase "data:image/".toList) (.group (.alt (anyCase "png".toList) (.alt
    (.seq (anyCase "jp".toList) (.seq (.maybe (eitherCase 'e')) (eitherCase 'g')))
    (.alt (anyCase "gif".toList) (anyCase "webp".toList)))))

/-- The shapes that mark the canvas, of those below the root. -/
def marks (root : Element) : List Element :=
  (((iterAll root.children).filter fun e => name e ∈ DRAWING).filter fun e => name e ≠ "g").filter hasExtent

def warningsOf (src : List Char) (root : Element) : List String :=
  (if root.get "viewBox" = "" then ["no viewBox: will not scale cleanly"] else []) ++
    (if root.get "xmlns" = "" ∧ ¬ SVG_NS <:+: root.tag.toList then ["no xmlns: may not render standalone"]
      else []) ++
    if RASTER.findall (fun _ => false) src ≠ [] then ["embedded raster image: not really a vector"] else []

/-- What is said of the tree of a text. -/
def checkRoot (src : List Char) (root : Element) : CheckResult :=
  if name root ≠ "svg" then ⟨false, "root element is <" ++ name root ++ ">, not <svg>", [], 0⟩
  else if marks root = [] then ⟨false, "SVG draws nothing", warningsOf src root, 0⟩
  else ⟨true, "", warningsOf src root, (marks root).length⟩

/-- `check`, where `fromstring` is the parser. -/
def check (u : Unicode) (fromstring : List Char → Except String Element) (text : List Char) : CheckResult :=
  let src := Extract.extract u text ["svg".toList]
  if Extract.strip src = [] then ⟨false, "no SVG found in output", [], 0⟩
  else
    match fromstring src with
    | .error exc => ⟨false, "XML parse error: " ++ exc, [], 0⟩
    | .ok root => checkRoot src root

/-! ## What can mark the canvas -/

/-- What is drawn only where it is used. -/
def STORES : List String :=
  ["defs", "symbol", "clipPath", "mask", "marker", "pattern"]

/-- An attribute of the document names the element. -/
def referenced (root el : Element) : Bool :=
  match el.attrs.lookup "id" with
  | some id => root.iter.any fun other => other.attrs.any fun a =>
      ('#' :: id.toList) <:+: a.2.toList
  | none => false

section

variable (hides : Element → Bool)

mutual

/-- An element and what is in it, less what is hidden and what is in that. -/
def Element.shown : Element → List Element
  | .mk tag attrs text tail children =>
      if hides (.mk tag attrs text tail children) then []
      else .mk tag attrs text tail children :: shownAll children

def shownAll : List Element → List Element
  | [] => []
  | el :: rest => el.shown ++ shownAll rest

end

end

mutual

/-- The text in an element. -/
def Element.content : Element → List Char
  | .mk _ _ text _ children => text.toList ++ contentAll children

def contentAll : List Element → List Char
  | [] => []
  | .mk tag attrs text tail children :: rest =>
      (Element.mk tag attrs text tail children).content ++ tail.toList ++ contentAll rest

end

def isUnit (c : Char) : Bool :=
  c.isAlpha || c = '%'

/-- Zero, in some unit. -/
def zeroLength (s : List Char) : Bool :=
  (List.range (s.length + 1)).any fun n => (s.drop n).all isUnit && isZero (s.take n)

def isShape (el : Element) : Bool :=
  name el ∈ DRAWING && name el ≠ "g"

/-- No extent is missing or zero, and there is something to draw. -/
def canMark (el : Element) : Bool :=
  match (EXTENT_ATTRS.lookup (name el)).getD [] with
  | [] =>
      if name el = "path" then strip (el.get "d") ≠ []
      else if name el = "polygon" ∨ name el = "polyline" then strip (el.get "points") ≠ []
      else if name el = "text" then Extract.strip el.content ≠ []
      else true
  | attrs => attrs.all fun a => strip (el.get a) ≠ [] && !zeroLength (strip (el.get a))

/-- Only what can mark the canvas is counted, and a document without it fails. -/
def Counts (root : Element) : Prop :=
  let drawn := (shownAll (fun el => name el ∈ STORES && !referenced root el) root.children).filter fun el =>
    isShape el && canMark el
  ∀ src, (checkRoot src root).shape_count ≤ drawn.length ∧ (drawn = [] → (checkRoot src root).ok = false)

/-! ## What is counted -/

/-- A path without a line, or an extent that is written as zero, without a unit, in `px` or in `%`. -/
inductive Extentless (el : Element) : Prop
  | path (here : name el = "path") (none_ : strip (el.get "d") = [])
  | sized {attrs a} (has : EXTENT_ATTRS.lookup (name el) = some attrs) (one : a ∈ attrs)
      (zero : isZero (bare (strip (el.get a))) = true)

/-- A shape that is drawn, as long as every extent it is written with is more than zero in its unit. -/
def Plain (el : Element) : Prop :=
  isShape el = true ∧ (name el = "path" → strip (el.get "d") ≠ []) ∧
    ∀ attrs, EXTENT_ATTRS.lookup (name el) = some attrs → ∀ a ∈ attrs, zeroLength (strip (el.get a)) = false

variable {src : List Char} {root el : Element} {hides : Element → Bool}

theorem shape_count_eq (svg : name root = "svg") :
    (checkRoot src root).shape_count = (marks root).length ∧
      ((checkRoot src root).ok = true ↔ marks root ≠ []) := by
  rw [checkRoot, if_neg (not_not.mpr svg)]
  split
  next none_ =>
    rw [none_]
    exact ⟨rfl, fun ok => absurd ok Bool.false_ne_true, fun some_ => absurd rfl some_⟩
  next some_ => exact ⟨rfl, fun _ => some_, fun _ => rfl⟩

theorem extent_of_path {attrs : List String} (has : EXTENT_ATTRS.lookup (name el) = some attrs)
    (here : name el = "path") : attrs = [] := by
  rw [here] at has
  exact (Option.some.inj has).symm

theorem extent_pathless (few : (EXTENT_ATTRS.lookup (name el)).getD [] = []) :
    hasExtent el = true ↔ ¬ (name el = "path" ∧ strip (el.get "d") = []) := by
  rw [hasExtent, few]
  simp [imp_iff_not_or]

/-- What the check takes to have an extent. -/
theorem hasExtent_iff : hasExtent el = true ↔ ¬ Extentless el := by
  by_cases few : (EXTENT_ATTRS.lookup (name el)).getD [] = []
  · rw [extent_pathless few, not_iff_not]
    constructor
    · rintro ⟨here, none_⟩
      exact .path here none_
    · rintro (⟨here, none_⟩ | ⟨has, one, -⟩)
      · exact ⟨here, none_⟩
      · rw [has, Option.getD_some] at few
        rw [few] at one
        cases one
  · have written (a : String) : (strip (el.get a) = [] || !isZero (bare (strip (el.get a)))) = true ↔
        ¬ isZero (bare (strip (el.get a))) = true := by
      by_cases blank : strip (el.get a) = []
      · rw [blank]
        decide
      · simp [blank]
    obtain ⟨attrs, has⟩ : ∃ attrs, EXTENT_ATTRS.lookup (name el) = some attrs := by
      cases found : EXTENT_ATTRS.lookup (name el) with
      | none => exact absurd (by rw [found]; rfl) few
      | some attrs => exact ⟨attrs, rfl⟩
    have each : hasExtent el = attrs.all fun a => strip (el.get a) = [] || !isZero (bare (strip (el.get a))) := by
      rw [has, Option.getD_some] at few
      rw [hasExtent, has, Option.getD_some]
      cases attrs with
      | nil => exact absurd rfl few
      | cons => rfl
    rw [each, List.all_eq_true]
    constructor
    · rintro all (⟨here, -⟩ | ⟨has', one, zero⟩)
      · rw [has, extent_of_path has here] at few
        exact few rfl
      · obtain rfl := Option.some.inj (has.symm.trans has')
        exact (written _).mp (all _ one) zero
    · intro sound a one
      exact (written a).mpr fun zero => sound (.sized has one zero)

theorem mem_marks : el ∈ marks root ↔ el ∈ iterAll root.children ∧ isShape el = true ∧ ¬ Extentless el := by
  rw [marks, List.mem_filter, List.mem_filter, List.mem_filter, hasExtent_iff, isShape, Bool.and_eq_true]
  tauto

theorem zeroLength_append {number unit : List Char} (units : ∀ c ∈ unit, isUnit c = true)
    (zero : isZero number = true) : zeroLength (number ++ unit) = true := by
  have within : number.length < (number ++ unit).length + 1 := by
    rw [List.length_append]
    omega
  refine List.any_eq_true.mpr ⟨number.length, List.mem_range.mpr within, ?_⟩
  rw [List.take_left, List.drop_left, zero, Bool.and_true]
  exact List.all_eq_true.mpr units

theorem zeroLength_of_bare {s : List Char} (zero : isZero (bare s) = true) : zeroLength s = true := by
  have whole : bare s ++ s.rtakeWhile (fun c => c ∈ "px%".toList) = s := List.rdropWhile_append_rtakeWhile ..
  have known : ("px%".toList.all isUnit) = true := by decide
  have units : ∀ c ∈ s.rtakeWhile (fun c => c ∈ "px%".toList), isUnit c = true := by
    intro c member
    have taken : decide (c ∈ "px%".toList) = true := by simpa using List.mem_rtakeWhile_imp member
    exact List.all_eq_true.mp known c (of_decide_eq_true taken)
  rw [← whole]
  exact zeroLength_append units zero

theorem Plain.extent (plain : Plain el) : ¬ Extentless el := by
  rintro (⟨here, none_⟩ | ⟨has, one, zero⟩)
  · exact plain.2.1 here none_
  · exact absurd (zeroLength_of_bare zero) (Bool.eq_false_iff.mp (plain.2.2 _ has _ one))

mutual

theorem shown_sublist (hides : Element → Bool) : (el : Element) → (el.shown hides).Sublist el.iter
  | .mk tag attrs text tail children => by
      rw [Element.shown, Element.iter]
      split
      · exact List.nil_sublist _
      · exact (shownAll_sublist hides children).cons_cons _

theorem shownAll_sublist (hides : Element → Bool) :
    (els : List Element) → (shownAll hides els).Sublist (iterAll els)
  | [] => List.Sublist.refl _
  | el :: rest => (shown_sublist hides el).append (shownAll_sublist hides rest)

end

open Classical in
/-- What is counted are shapes with an extent, all of those that are drawn where they stand among them, and a
document without one fails. -/
theorem shapes_counted (src : List Char) (root : Element) (svg : name root = "svg") :
    ∃ counted, counted.Sublist (iterAll root.children) ∧
      (∀ el ∈ counted, isShape el = true ∧ ¬ Extentless el) ∧
      ((shownAll (fun el => name el ∈ STORES) root.children).filter fun el => Plain el).Sublist counted ∧
      (checkRoot src root).shape_count = counted.length ∧
      ((checkRoot src root).ok = true ↔ counted ≠ []) := by
  refine ⟨marks root, ?_, fun el member => (mem_marks.mp member).2, ?_, shape_count_eq svg⟩
  · exact (List.filter_sublist.trans List.filter_sublist).trans List.filter_sublist
  · refine ((shownAll_sublist _ root.children).filter _).trans ?_
    rw [marks, List.filter_filter, List.filter_filter]
    refine List.monotone_filter_right _ fun el plain => ?_
    have plain : Plain el := of_decide_eq_true plain
    obtain ⟨drawing, other⟩ := Bool.and_eq_true_iff.mp plain.1
    rw [hasExtent_iff.mpr plain.extent, drawing, other]
    rfl

/-- `<svg><path d="M0 0h9"/><path d=" "/></svg>` -/
def blankPath : Element :=
  .mk "svg" [] "" "" [.mk "path" [("d", "M0 0h9")] "" "" [], .mk "path" [("d", " ")] "" "" []]

open Classical in
theorem shapes_counted_blankPath : name blankPath = "svg" ∧
    ∃ counted, counted.Sublist (iterAll blankPath.children) ∧
      (∀ el ∈ counted, isShape el = true ∧ ¬ Extentless el) ∧
      ((shownAll (fun el => name el ∈ STORES) blankPath.children).filter fun el => Plain el).Sublist counted ∧
      (checkRoot [] blankPath).shape_count = counted.length ∧
      ((checkRoot [] blankPath).ok = true ↔ counted ≠ []) :=
  ⟨by decide, shapes_counted [] blankPath (by decide)⟩

theorem iterAll_append (front back : List Element) : iterAll (front ++ back) = iterAll front ++ iterAll back := by
  induction front with
  | nil => rfl
  | cons el rest ih => rw [List.cons_append, iterAll, iterAll, ih, List.append_assoc]

/-- What stands around a shape is not looked at: in a `defs` it counts as it does outside. -/
theorem marks_wrapped (tag : String) (attrs : List (String × String)) (text tail : String)
    (front wrapped back : List Element) :
    marks (.mk tag attrs text tail (front ++ .mk "defs" [] "" "" wrapped :: back)) =
      marks (.mk tag attrs text tail (front ++ (wrapped ++ back))) := by
  have plain : String.ofList (without SVG_NS 0 "defs".toList) ∉ DRAWING := by decide
  have undrawn : name (.mk "defs" [] "" "" wrapped) ∉ DRAWING := plain
  rw [marks, marks, Element.children, Element.children, iterAll_append, iterAll_append, iterAll,
    iterAll_append, Element.iter]
  simp [undrawn]

/-- `<svg><defs><path d="M0 0h9"/></defs><polygon points=""/></svg>` -/
def unseen : Element :=
  .mk "svg" [] "" "" [.mk "defs" [] "" "" [.mk "path" [("d", "M0 0h9")] "" "" []],
    .mk "polygon" [("points", "")] "" "" []]

/-- A path that nothing uses is counted, and so is a polygon of no points. -/
theorem unseen_counted : ¬ Counts unseen := by
  intro counts
  have two : (marks unseen).length = 2 := by decide
  have none_ : (shownAll (fun el => name el ∈ STORES && !referenced unseen el) unseen.children).filter (fun el =>
      isShape el && canMark el) = [] := by decide
  obtain ⟨short, -⟩ := counts []
  rw [(shape_count_eq (by decide)).1, two, none_] at short
  exact absurd short (by decide)

end LocalHarness.Checks.Svg
