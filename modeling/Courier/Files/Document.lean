import Courier.Files.Store
import Courier.Json.Writer

namespace Courier

open Json (Value)

def Table.toDocument (t : Table) : Value :=
  .object [("columns", .object (t.columns.map (fun c => (c.1, .text c.2.name)))),
    ("groups", .list (t.groups.map (fun g => .list (g.map .list))))]

namespace Drawing

def segmentDocument (s : Segment) : Value :=
  .object [("colour", .text s.colour), ("xs", .list (s.xs.map .float)),
    ("ys", .list (s.ys.map .float))]

def markDocument (m : Mark) : Value :=
  .object [("label", .text m.label), ("colour", .text m.colour), ("x", .float m.x),
    ("y", .float m.y)]

/-- All that is drawn; the legend gives the colours of the kinds. -/
def toDocument (d : Drawing) : Value :=
  .object [("title", .text d.title),
    ("image", .list (d.image.map (fun r => .list (r.map (fun (n : Nat) => .int n))))),
    ("grid", .list (d.grid.map segmentDocument)), ("way", .list (d.way.map segmentDocument)),
    ("marks", .list (d.marks.map markDocument)),
    ("legend", .object (Kind.all.map (fun k => (k.name, .text (kindColour k)))))]

end Drawing

def Content.onDisk : Content → String
  | text s => s
  | table t => Json.write false t.toDocument
  | drawing d => Json.write false d.toDocument

end Courier
