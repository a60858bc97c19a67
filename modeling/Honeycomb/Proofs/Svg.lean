import Honeycomb.Report
import Honeycomb.Svg
import Honeycomb.Proofs.Json.Number
import Honeycomb.Proofs.Text.Letters
import Honeycomb.Proofs.Text.Markup

/-!
# Names inside a picture

* `Report.spots?_ofLayout` — the names and positions that the data about a layout lists.
* `linkTokens`, `nodeTokens`, `picture` — the tokens of a picture: a line for each link and a group
  for each node, with the name of the node in an attribute and in a text.
* `render_eq_written` — they are what is written; `wellFormed_picture` — a reader of markup finds
  them, whatever the names are.
* `render_structure` — the structure of a picture.
-/

set_option autoImplicit false

namespace Honeycomb

open Text (unit)
open Text.Markup

/-! ## Positions in the data -/

namespace Report

/-- What the data about a layout says about a node: its name and its position. -/
structure Spot where
  name : Text
  x : Float
  y : Float

/-- The spot that an entry tells of. -/
def spot? (entry : Json) : Option Spot :=
  match entry.member? "name", entry.member? "x", entry.member? "y" with
  | some (.text name), some (.number x), some (.number y) => some ⟨name, x, y⟩
  | _, _, _ => none

/-- The spots that the data about a layout tells of, in order. -/
def spots? (report : Json) : Option (List Spot) :=
  match report.member? "nodes" with
  | some (.array entries) => entries.mapM spot?
  | _ => none

/-- The spot of a node. -/
def spotOf (n : Node Float) : Spot := ⟨n.module.name, hundredths n.center.x, hundredths n.center.y⟩

theorem spot?_node (n : Node Float) : spot? (node n) = some (spotOf n) := rfl

theorem spots?_ofLayout (layout : Layout Float) :
    spots? (ofLayout layout) = some (layout.nodes.map spotOf) := by
  show (layout.nodes.map node).mapM spot? = _
  induction layout.nodes with
  | nil => rfl
  | cons n ns ih =>
    rw [List.map_cons, List.mapM_cons, spot?_node, ih]
    rfl

end Report

/-- A layout with the names taken out. -/
def Layout.nameless (layout : Layout Float) : Layout Float :=
  { layout with
    nodes := layout.nodes.map fun n => { n with module := { n.module with name := "" } }
    links := layout.links.map fun l => { l with name := "" } }

namespace Svg

/-! ## Quiet texts in a picture -/

theorem quietUnit_of_isDigit {u : UInt16} (h : Digits.isDigit u = true) : QuietUnit u := by
  refine ⟨?_, ?_, ?_, ?_⟩ <;> rintro rfl <;> exact absurd h (by decide)

theorem quiet_numberText (x : Float) : Quiet (numberText x) := by
  have hmarks : Quiet ⟨[unit '.', unit 'e', unit '+', unit '-']⟩ := by decide
  have hwords : ∀ word ∈ [(.ofString "NaN" : Text), "Infinity", "-Infinity"], Quiet word := by
    decide
  exact Json.forall_mem_numberText (fun _ => quietUnit_of_isDigit) hmarks hwords x

theorem quiet_position (x : Float) : Quiet (position x) := quiet_numberText _

theorem quiet_tenthsUnits (n : Nat) : ∀ u ∈ tenthsUnits n, QuietUnit u := by
  intro u hu
  rcases List.mem_append.mp hu with hu | hu
  · exact quietUnit_of_isDigit (Digits.isDigit_of_mem_ofNat _ u hu)
  rcases List.mem_cons.mp hu with rfl | hu
  · decide
  · rw [List.mem_singleton.mp hu]
    exact quietUnit_of_isDigit (Digits.isDigit_digit (Nat.mod_lt n (by decide)))

theorem quiet_tenthsText (x : Float) : Quiet (tenthsText x) := by
  unfold tenthsText
  split
  · decide
  · dsimp only
    split
    · exact quiet_numberText x
    · split
      · exact quiet_tenthsUnits _
      · intro u hu
        rcases List.mem_cons.mp hu with rfl | hu
        · decide
        · exact quiet_tenthsUnits _ u hu
  · exact quiet_numberText x

theorem quiet_solid_ofLink (enabled : Bool) : Quiet (Palette.solid (Palette.ofLink enabled)) := by
  cases enabled <;> decide +kernel

theorem quiet_solid_fill (c : Category) : Quiet (Palette.solid (Palette.ofCategory c).fill) := by
  cases c <;> decide +kernel

theorem quiet_solid_text (c : Category) : Quiet (Palette.solid (Palette.ofCategory c).text) := by
  cases c <;> decide +kernel

theorem quiet_word (c : Category) : Quiet c.word := by
  cases c <;> decide

theorem quiet_pointsText (center : Point Float) (size : Float) :
    Quiet (Hexagon.pointsText center size) := by
  refine Quiet.intercalate (by decide) fun t ht => ?_
  obtain ⟨p, -, rfl⟩ := List.mem_map.mp ht
  exact ((quiet_tenthsText p.x).append (by decide)).append (quiet_tenthsText p.y)

/-! ## The tokens of a picture -/

/-- The tag that opens the picture. -/
def headerToken (surface : Viewport Float) : Token :=
  .opening "svg"
    [("xmlns", "http://www.w3.org/2000/svg"), ("width", numberText surface.width),
     ("height", numberText surface.height),
     ("viewBox", "0 0 " ++ numberText surface.width ++ " " ++ numberText surface.height)] false

def linkTokens (source target : Point Float) (enabled : Bool) : List Token :=
  [.content "    ",
   .opening "line"
     [("x1", position source.x), ("y1", position source.y), ("x2", position target.x),
      ("y2", position target.y), ("stroke", Palette.solid (Palette.ofLink enabled)),
      ("stroke-width", numberText Palette.linkWidth),
      ("stroke-opacity", numberText Palette.linkOpacity),
      ("stroke-dasharray", Palette.linkDashes)] true]

def nodeTag (name : Text) : Token :=
  .opening "g" [("class", "hex-node"), ("data-name", escape name)] false

def polygonTag (size : Float) (category : Category) (center : Point Float) : Token :=
  .opening "polygon"
    [("points", Hexagon.pointsText center size),
     ("fill", Palette.solid (Palette.ofCategory category).fill)] true

def textTag (category : Category) (x y : Text) (style : List (Text × Text)) : Token :=
  .opening "text"
    (("x", x) :: ("y", y) :: ("fill", Palette.solid (Palette.ofCategory category).text) :: style)
    false

def nameStyle : List (Text × Text) :=
  [("font-size", "11"), ("font-weight", "600"), ("text-anchor", "middle")]

def wordStyle : List (Text × Text) := [("font-size", "10"), ("text-anchor", "middle")]

/-- The lines of a node with a category and a centre, where hexagons have a size and the data has an
entry for the node. -/
def nodeTokens (size : Float) (category : Category) (center : Point Float) (spot : Report.Spot) :
    List (List Token) :=
  let x := numberText spot.x
  let y := numberText spot.y
  [[.content "    ", nodeTag spot.name],
   [.content "      ", polygonTag size category center],
   [.content "      ", textTag category x y nameStyle,
    .content (escape (Module.labelOf spot.name)), .closing "text"],
   [.content "      ", textTag category x (position (center.y + lineHeight)) wordStyle,
    .content category.word, .closing "text"],
   [.content "    ", .closing "g"]]

/-- Lines in a group of a class. -/
def groupTokens (className : Text) (inside : List (List Token)) : List (List Token) :=
  [.content "  ", .opening "g" [("class", className)] false] ::
    inside.concat [.content "  ", .closing "g"]

/-- The lines of a picture behind the first one. -/
def pictureLines (layout : Layout Float) (spots : List Report.Spot) : List (List Token) :=
  (groupTokens "links" (layout.links.map fun l => linkTokens l.source l.target l.enabled) ++
    groupTokens "nodes" ((layout.nodes.zip spots).flatMap fun p =>
      nodeTokens layout.hexSize p.1.category p.1.center p.2)).concat [.closing "svg"]

/-- The tokens of a picture. -/
def picture (layout : Layout Float) (spots : List Report.Spot) : List Token :=
  headerToken layout.surface :: (pictureLines layout spots).flatMap (.content "\n" :: ·)

/-- The layout has no part in the names. -/
theorem picture_nameless (layout : Layout Float) (spots : List Report.Spot) :
    picture layout.nameless spots = picture layout spots := by
  simp only [picture, pictureLines, Layout.nameless, List.map_map, List.zip_map_left,
    List.flatMap_map]
  rfl

/-! ## What is written -/

theorem header_eq_written (surface : Viewport Float) :
    header surface = Token.written [headerToken surface] := by
  have hstart : Text.ofString "<svg" = "<" ++ "svg" := by decide
  simp [header, headerToken, hstart, attr, Text.Markup.attr, Token.text, tagEnd, Text.append_assoc]

theorem line_eq_written (link : Link Float) :
    line link = Token.written (linkTokens link.source link.target link.enabled) := by
  have hstart : Text.ofString "    <line" = "    " ++ ("<" ++ "line") := by decide
  simp [line, linkTokens, hstart, attr, Text.Markup.attr, Token.text, tagEnd, Text.append_assoc]

theorem nodeLines_eq_written (size : Float) (n : Node Float) :
    nodeLines size n =
      (nodeTokens size n.category n.center (Report.spotOf n)).map Token.written := by
  have hgroup : Text.ofString "    <g" = "    " ++ ("<" ++ "g") := by decide
  have hpolygon : Text.ofString "      <polygon" = "      " ++ ("<" ++ "polygon") := by decide
  have htext : Text.ofString "      <text" = "      " ++ ("<" ++ "text") := by decide
  have htextEnd : Text.ofString "</text>" = "</" ++ ("text" ++ ">") := by decide
  have hgroupEnd : Text.ofString "    </g>" = "    " ++ ("</" ++ ("g" ++ ">")) := by decide
  simp [nodeLines, nodeTokens, nodeTag, polygonTag, textTag, nameStyle, wordStyle, hgroup, hpolygon,
    htext, htextEnd, hgroupEnd, Report.spotOf, position, Module.label, attr, Text.Markup.attr,
    Token.text, tagEnd, Text.append_assoc]

theorem group_eq_written (className : Text) (inside : List (List Token)) :
    group className (inside.map Token.written) =
      (groupTokens className inside).map Token.written := by
  have hstart : Text.ofString "  <g" = "  " ++ ("<" ++ "g") := by decide
  have hend : Text.ofString "  </g>" = "  " ++ ("</" ++ ("g" ++ ">")) := by decide
  simp [group, groupTokens, hstart, hend, attr, Text.Markup.attr, Token.text, tagEnd,
    Text.append_assoc]

theorem lines_eq_written (layout : Layout Float) :
    lines layout =
      Token.written [headerToken layout.surface] ::
        (pictureLines layout (layout.nodes.map Report.spotOf)).map Token.written := by
  have hend : Text.ofString "</svg>" = "</" ++ ("svg" ++ ">") := by decide
  have hlinks : layout.links.map line =
      (layout.links.map fun l => linkTokens l.source l.target l.enabled).map Token.written := by
    rw [List.map_map]
    exact List.map_congr_left fun l _ => line_eq_written l
  have hnodes : layout.nodes.flatMap (nodeLines layout.hexSize) =
      ((layout.nodes.zip (layout.nodes.map Report.spotOf)).flatMap fun p =>
        nodeTokens layout.hexSize p.1.category p.1.center p.2).map Token.written := by
    rw [← List.map_prod_left_eq_zip, List.flatMap_map, List.map_flatMap]
    exact congrArg (List.flatMap · layout.nodes) (funext (nodeLines_eq_written _))
  rw [lines, hlinks, hnodes, group_eq_written, group_eq_written, header_eq_written, pictureLines]
  simp [hend, Token.text, Text.append_assoc]

theorem render_eq_written (layout : Layout Float) :
    render layout = Token.written (picture layout (layout.nodes.map Report.spotOf)) := by
  have hlines : ∀ ls : List (List Token),
      Text.join ((ls.map Token.written).map (Text.ofString "\n" ++ ·)) =
        Token.written (ls.flatMap (.content "\n" :: ·)) := by
    intro ls
    induction ls with
    | nil => rfl
    | cons l ls ih =>
      rw [List.flatMap_cons, Token.written_append, ← ih]
      rfl
  rw [render, lines_eq_written, Text.intercalate_cons, hlines]
  simp [picture]

/-! ## What a reader finds -/

theorem wellFormed_opening {name : Text} {attrs : List (Text × Text)} (names : List Text)
    (hattrs : attrs.map (·.1) = names) (hnames : ∀ n ∈ name :: names, IsName n)
    (hvalues : ∀ v ∈ attrs.map (·.2), Quiet v) (ends : Bool) :
    (Token.opening name attrs ends).WellFormed := by
  obtain ⟨hname, hnames⟩ := List.forall_mem_cons.mp hnames
  exact ⟨hname, hattrs ▸ hnames, hvalues⟩

theorem wellFormed_header (surface : Viewport Float) : (headerToken surface).WellFormed := by
  have hbox : Quiet ("0 0 " ++ numberText surface.width ++ " " ++ numberText surface.height) :=
    ((Quiet.append (by decide) (quiet_numberText _)).append (by decide)).append
      (quiet_numberText _)
  refine wellFormed_opening ["xmlns", "width", "height", "viewBox"] rfl (by decide) ?_ _
  simp only [List.map_cons, List.map_nil, List.forall_mem_cons]
  exact ⟨by decide, quiet_numberText _, quiet_numberText _, hbox, nofun⟩

theorem wellFormed_link (source target : Point Float) (enabled : Bool) :
    ∀ t ∈ linkTokens source target enabled, t.WellFormed := by
  simp only [linkTokens, List.forall_mem_cons]
  refine ⟨by decide, wellFormed_opening ["x1", "y1", "x2", "y2", "stroke", "stroke-width",
    "stroke-opacity", "stroke-dasharray"] rfl (by decide) ?_ _, nofun⟩
  simp only [List.map_cons, List.map_nil, List.forall_mem_cons]
  exact ⟨quiet_position _, quiet_position _, quiet_position _, quiet_position _,
    quiet_solid_ofLink _, quiet_numberText _, quiet_numberText _, by decide, nofun⟩

theorem wellFormed_nodeTag (name : Text) : (nodeTag name).WellFormed := by
  refine wellFormed_opening ["class", "data-name"] rfl (by decide) ?_ _
  simp only [List.map_cons, List.map_nil, List.forall_mem_cons]
  exact ⟨by decide, quiet_escape name, nofun⟩

theorem wellFormed_polygonTag (size : Float) (category : Category) (center : Point Float) :
    (polygonTag size category center).WellFormed := by
  refine wellFormed_opening ["points", "fill"] rfl (by decide) ?_ _
  simp only [List.map_cons, List.map_nil, List.forall_mem_cons]
  exact ⟨quiet_pointsText center size, quiet_solid_fill category, nofun⟩

theorem wellFormed_textTag (category : Category) {x y : Text} (hx : Quiet x) (hy : Quiet y)
    {style : List (Text × Text)} (hstyle : ∀ a ∈ style, IsName a.1 ∧ Quiet a.2) :
    (textTag category x y style).WellFormed := by
  refine wellFormed_opening ("x" :: "y" :: "fill" :: style.map (·.1)) rfl ?_ ?_ _
  · simp only [List.forall_mem_cons, List.forall_mem_map]
    exact ⟨by decide, by decide, by decide, by decide, fun a ha => (hstyle a ha).1⟩
  · simp only [List.map_cons, List.forall_mem_cons, List.forall_mem_map]
    exact ⟨hx, hy, quiet_solid_text category, fun a ha => (hstyle a ha).2⟩

theorem wellFormed_node (size : Float) (category : Category) (center : Point Float)
    (spot : Report.Spot) :
    ∀ l ∈ nodeTokens size category center spot, ∀ t ∈ l, t.WellFormed := by
  have hname : (textTag category (numberText spot.x) (numberText spot.y) nameStyle).WellFormed :=
    wellFormed_textTag category (quiet_numberText _) (quiet_numberText _) (by decide)
  have hword : (textTag category (numberText spot.x) (position (center.y + lineHeight))
      wordStyle).WellFormed :=
    wellFormed_textTag category (quiet_numberText _) (quiet_position _) (by decide)
  simp only [nodeTokens, List.forall_mem_cons]
  exact ⟨⟨by decide, wellFormed_nodeTag _, nofun⟩, ⟨by decide, wellFormed_polygonTag _ _ _, nofun⟩,
    ⟨by decide, hname, quiet_escape _, by decide, nofun⟩,
    ⟨by decide, hword, quiet_word _, by decide, nofun⟩, ⟨by decide, by decide, nofun⟩, nofun⟩

theorem wellFormed_group {className : Text} (hclass : Quiet className)
    {inside : List (List Token)} (h : ∀ l ∈ inside, ∀ t ∈ l, t.WellFormed) :
    ∀ l ∈ groupTokens className inside, ∀ t ∈ l, t.WellFormed := by
  have htag : (Token.opening "g" [("class", className)] false).WellFormed := by
    refine wellFormed_opening ["class"] rfl (by decide) ?_ _
    rwa [List.map_singleton, List.forall_mem_singleton]
  rw [groupTokens, List.concat_eq_append, List.forall_mem_cons, List.forall_mem_append]
  simp only [List.forall_mem_cons]
  exact ⟨⟨by decide, htag, nofun⟩, h, ⟨by decide, by decide, nofun⟩, nofun⟩

/-- **The tokens of a picture are well-formed**, whatever the names are. -/
theorem wellFormed_picture (layout : Layout Float) (spots : List Report.Spot) :
    ∀ t ∈ picture layout spots, t.WellFormed := by
  have hlinks : ∀ l ∈ layout.links.map fun l => linkTokens l.source l.target l.enabled,
      ∀ t ∈ l, t.WellFormed := by
    intro l hl
    obtain ⟨link, -, rfl⟩ := List.mem_map.mp hl
    exact wellFormed_link _ _ _
  have hnodes : ∀ l ∈ (layout.nodes.zip spots).flatMap fun p =>
      nodeTokens layout.hexSize p.1.category p.1.center p.2, ∀ t ∈ l, t.WellFormed := by
    intro l hl
    obtain ⟨p, -, hl⟩ := List.mem_flatMap.mp hl
    exact wellFormed_node _ _ _ _ l hl
  have hlines : ∀ l ∈ pictureLines layout spots, ∀ t ∈ l, t.WellFormed := by
    rw [pictureLines, List.concat_eq_append, List.forall_mem_append, List.forall_mem_append]
    refine ⟨⟨wellFormed_group (by decide) hlinks, wellFormed_group (by decide) hnodes⟩, ?_⟩
    simp only [List.forall_mem_cons]
    exact ⟨⟨by decide, nofun⟩, nofun⟩
  intro t ht
  rcases List.mem_cons.mp ht with rfl | ht
  · exact wellFormed_header _
  obtain ⟨l, hl, ht⟩ := List.mem_flatMap.mp ht
  rcases List.mem_cons.mp ht with rfl | ht
  · show Quiet _
    decide
  · exact hlines l hl t ht

/-! ## Counting -/

theorem countP_flatMap_of_const {α β : Type} {p : β → Bool} {f : α → List β} {k : Nat} {l : List α}
    (h : ∀ a ∈ l, (f a).countP p = k) : (l.flatMap f).countP p = k * l.length := by
  induction l with
  | nil => rfl
  | cons a l ih =>
    obtain ⟨ha, hl⟩ := List.forall_mem_cons.mp h
    rw [List.flatMap_cons, List.countP_append, ha, ih hl, List.length_cons, Nat.mul_succ,
      Nat.add_comm]

/-- Tags of a name, other than those around links and nodes, are as many as the links and nodes
have. -/
theorem countP_picture {name : Text} (layout : Layout Float) (spots : List Report.Spot)
    {perLink perNode : Nat} (hname : name ∉ [(.ofString "svg" : Text), "g"])
    (hlink : ∀ source target enabled,
      (linkTokens source target enabled).countP (Token.opens name) = perLink)
    (hnode : ∀ size category center spot,
      (nodeTokens size category center spot).flatten.countP (Token.opens name) = perNode) :
    (picture layout spots).countP (Token.opens name) =
      perLink * layout.links.length + perNode * (layout.nodes.zip spots).length := by
  rw [List.mem_cons, List.mem_singleton, not_or] at hname
  have hheader : Token.opens name (headerToken layout.surface) = false := by
    rw [headerToken, Token.opens, decide_eq_false (Ne.symm hname.1), Bool.false_and]
  have hbreaks : ∀ ls : List (List Token),
      (ls.flatMap (.content "\n" :: ·)).countP (Token.opens name) =
        ls.flatten.countP (Token.opens name) := by
    intro ls
    induction ls with
    | nil => rfl
    | cons l ls ih =>
      rw [List.flatMap_cons, List.flatten_cons, List.countP_append, List.countP_append, ih]
      rfl
  have hgroup : ∀ (className : Text) (inside : List (List Token)),
      (groupTokens className inside).flatten.countP (Token.opens name) =
        inside.flatten.countP (Token.opens name) := by
    intro className inside
    have hg : ¬ Text.ofString "g" = name := Ne.symm hname.2
    simp [groupTokens, Token.opens, hg, -List.countP_flatten]
  have hend : [[Token.closing "svg"]].flatten.countP (Token.opens name) = 0 := rfl
  have hlinks := countP_flatMap_of_const fun link (_ : link ∈ layout.links) =>
    hlink link.source link.target link.enabled
  have hnodes := countP_flatMap_of_const fun p (_ : p ∈ layout.nodes.zip spots) =>
    hnode layout.hexSize p.1.category p.1.center p.2
  -- the lines of all nodes taken together, in place of those of one node after the other
  simp only [← List.flatMap_id, ← List.flatMap_assoc] at hnodes
  rw [List.flatMap_id] at hnodes
  rw [picture, List.countP_cons, hheader, hbreaks, pictureLines, List.concat_eq_append,
    List.flatten_append, List.flatten_append, List.countP_append, List.countP_append, hgroup,
    hgroup, hend, ← List.flatMap_def, hlinks, hnodes]
  rfl

/-- **There are as many lines as links.** -/
theorem countP_line (layout : Layout Float) (spots : List Report.Spot) :
    (picture layout spots).countP (Token.opens "line") = layout.links.length := by
  have hname : Text.ofString "line" ∉ [(.ofString "svg" : Text), "g"] := by decide
  rw [countP_picture layout spots hname (fun _ _ _ => rfl) fun _ _ _ _ => rfl, Nat.one_mul,
    Nat.zero_mul, Nat.add_zero]

/-- **There are as many polygons as nodes.** -/
theorem countP_polygon {layout : Layout Float} {spots : List Report.Spot}
    (hspots : spots.length = layout.nodes.length) :
    (picture layout spots).countP (Token.opens "polygon") = layout.nodes.length := by
  have hname : Text.ofString "polygon" ∉ [(.ofString "svg" : Text), "g"] := by decide
  rw [countP_picture layout spots hname (fun _ _ _ => rfl) fun _ _ _ _ => rfl, Nat.zero_mul,
    Nat.zero_add, Nat.one_mul, List.length_zip, hspots, Nat.min_self]

/-! ## The structure of a picture -/

/-- **Names do not alter the structure of a picture.**  Its tokens are those of `picture`, which has
a line for each link and a group for each node, in order; the name of a node and the position of its
texts are those in the data about the layout, and nothing else is taken from the names.  A reader
finds just these tokens.  The name stands in an attribute and in the first text, escaped: its
special units are replaced one after the other, and what is escaped stands for the text that it was,
and for no other.  Lines and polygons occur as often as there are links and nodes. -/
theorem render_structure (layout : Layout Float) :
    ∃ spots, Report.spots? (Report.ofLayout layout) = some spots ∧
      spots.map (·.name) = layout.names ∧
      render layout = Token.written (picture layout.nameless spots) ∧
      State.Reads .between (render layout).units
        ((picture layout.nameless spots).flatMap Token.parts) .between ∧
      (∀ t, (escape t).units = replaceInTurn entities t.units ∧ StandsFor (escape t) t) ∧
      Function.Injective escape ∧
      occurrences (Text.unitsOf "<line ") (render layout).units = layout.links.length ∧
      occurrences (Text.unitsOf "<polygon ") (render layout).units = layout.nodes.length := by
  have hwell := wellFormed_picture layout (layout.nodes.map Report.spotOf)
  have hwritten := render_eq_written layout
  have hnames : (layout.nodes.map Report.spotOf).map (·.name) = layout.names := List.map_map
  have hline : Text.unitsOf "<line " = tagStart "line" := by decide
  have hpolygon : Text.unitsOf "<polygon " = tagStart "polygon" := by decide
  refine ⟨layout.nodes.map Report.spotOf, Report.spots?_ofLayout layout, hnames, ?_, ?_,
    fun t => ⟨escape_eq_replaceInTurn t, standsFor_escape t⟩, escape_injective, ?_, ?_⟩
  · rw [hwritten, picture_nameless]
  · rw [hwritten, picture_nameless]
    exact read_tokens hwell
  · rw [hwritten, hline, occurrences_tokens hwell (by decide), countP_line]
  · rw [hwritten, hpolygon, occurrences_tokens hwell (by decide),
      countP_polygon (List.length_map _)]

end Svg

end Honeycomb
