/-
# The catalogue of primitives

The primitives every program can call: symmetries and crops, scaling and tiling, painting, and
queries.  Costs only break ties between programs of one score; the identity alone is free.
-/
import GridRepair.Symmetry
import GridRepair.Region
import GridRepair.Tiling
import GridRepair.Painting
import GridRepair.Registry

namespace GridRepair

/-! ## Parameters -/

namespace Param

/-- An integer parameter, with the range of values worth a try. -/
def int (name : String) (lo hi : Int) : Param := ⟨name, .int lo hi, none⟩

/-- A color parameter. -/
def color (name : String) : Param := ⟨name, .color, none⟩

/-- A grid parameter. -/
def grid (name : String) : Param := ⟨name, .grid, none⟩

/-- A row or a column inside the largest usual grid. -/
def coordinate (name : String) : Param := int name 0 29

/-- A side or a length of the usual size. -/
def side (name : String) : Param := int name 1 30

/-- A small number of copies. -/
def factor (name : String) : Param := int name 1 5

/-- The parameter with a default. -/
def orElse (p : Param) (value : Int) : Param := ⟨p.name, p.kind, some value⟩

end Param

/-- A primitive whose result is a grid. -/
def Primitive.onGrids (name : String) (cost : Nat) (params : List Param)
    (run : Grid → Args → Except Fault Grid) : Primitive where
  name := name
  cost := cost
  params := params
  run g a := (run g a).map .grid

namespace Catalogue

/-- Symmetries and crops. -/
def spatial : List Primitive :=
  [ .onGrids "identity" 0 [] fun g _ => pure g,
    .onGrids "rotate90" 1 [(Param.int "k" 1 3).orElse 1] fun g a => do
      pure (g.rotate (← a.int 0)),
    .onGrids "reflect_h" 1 [] fun g _ => pure g.reflectH,
    .onGrids "reflect_v" 1 [] fun g _ => pure g.reflectV,
    .onGrids "transpose" 1 [] fun g _ => pure g.transpose,
    .onGrids "crop_to_content" 2 [(Param.color "bg").orElse 0] fun g a => do
      pure (g.cropToContent (← a.color 0)),
    .onGrids "crop_largest_object" 3 [(Param.color "bg").orElse 0] fun g a => do
      pure (g.cropLargestObject (← a.color 0)) ]

/-- Scaling and tiling. -/
def tiling : List Primitive :=
  [ .onGrids "scale" 2 [.factor "factor"] fun g a => do g.scale (← a.count 0),
    .onGrids "tile_h" 2 [.factor "count"] fun g a => do g.tileH (← a.count 0),
    .onGrids "tile_v" 2 [.factor "count"] fun g a => do g.tileV (← a.count 0),
    .onGrids "tile_repeat" 3 [.factor "rows", .factor "cols"] fun g a => do
      let rows ← a.count 0
      let cols ← a.count 1
      g.tileRepeat rows cols,
    .onGrids "tile_to_size" 3 [.side "height", .side "width"] fun g a => do
      let height ← a.count 0
      let width ← a.count 1
      g.tileToSize height width ]

/-- Pasting, recoloring and masks. -/
def coloring : List Primitive :=
  [ .onGrids "paste" 3
      [.grid "source", (Param.int "row" (-29) 29).orElse 0, (Param.int "col" (-29) 29).orElse 0,
        (Param.color "bg").orElse 0] fun g a => do
      let source ← a.grid 0
      let row ← a.int 1
      let col ← a.int 2
      let bg ← a.color 3
      pure (g.paste source row col bg),
    .onGrids "flood_fill" 3 [.coordinate "row", .coordinate "col", .color "color"] fun g a => do
      let row ← a.int 0
      let col ← a.int 1
      let color ← a.color 2
      pure (g.floodFill row col color),
    .onGrids "fill_mask" 2 [.grid "mask", .color "color"] fun g a => do
      let mask ← a.grid 0
      let color ← a.color 1
      g.fillMask mask color,
    .onGrids "recolor" 2 [.color "from", .color "to"] fun g a => do
      let source ← a.color 0
      let target ← a.color 1
      pure (g.recolor source target),
    .onGrids "overlay" 2 [.grid "source"] fun g a => do g.overlay (← a.grid 0),
    .onGrids "mask_color" 2 [.color "color"] fun g a => do pure (g.maskColor (← a.color 0)),
    .onGrids "apply_mask" 2 [.grid "mask", (Param.color "background").orElse 0] fun g a => do
      let mask ← a.grid 0
      let bg ← a.color 1
      g.applyMask mask bg ]

/-- Strokes and rectangles. -/
def drawing : List Primitive :=
  [ .onGrids "draw_line_h" 3
      [.coordinate "row", .coordinate "col", .side "length", .color "color"] fun g a => do
      let row ← a.int 0
      let col ← a.int 1
      let length ← a.count 2
      let color ← a.color 3
      pure (g.drawLineH row col length color),
    .onGrids "draw_line_v" 3
      [.coordinate "row", .coordinate "col", .side "length", .color "color"] fun g a => do
      let row ← a.int 0
      let col ← a.int 1
      let length ← a.count 2
      let color ← a.color 3
      pure (g.drawLineV row col length color),
    .onGrids "draw_rect" 4
      [.coordinate "row", .coordinate "col", .side "height", .side "width", .color "color"]
      fun g a => do
      let row ← a.int 0
      let col ← a.int 1
      let height ← a.count 2
      let width ← a.count 3
      let color ← a.color 4
      pure (g.drawRect row col height width color),
    .onGrids "draw_rect_outline" 4
      [.coordinate "row", .coordinate "col", .side "height", .side "width", .color "color"]
      fun g a => do
      let row ← a.int 0
      let col ← a.int 1
      let height ← a.count 2
      let width ← a.count 3
      let color ← a.color 4
      pure (g.drawRectOutline row col height width color) ]

/-- Questions about a grid. -/
def queries : List Primitive :=
  [ ⟨"find_color_positions", 1, [.color "color"], fun g a => do
      pure (.positions (g.positions (← a.color 0)))⟩,
    ⟨"count_color", 1, [.color "color"], fun g a => do
      pure (.int (g.count (← a.color 0)))⟩,
    ⟨"has_color", 1, [.color "color"], fun g a => do
      pure (.bool (g.has (← a.color 0)))⟩,
    ⟨"unique_colors", 1, [], fun g _ => pure (.colors g.palette.colors)⟩ ]

/-- All primitives of the catalogue. -/
def all : List Primitive := spatial ++ tiling ++ coloring ++ drawing ++ queries

end Catalogue

/-- The registry of the catalogue. -/
def Registry.standard : Registry := Registry.empty.registerAll Catalogue.all

end GridRepair
