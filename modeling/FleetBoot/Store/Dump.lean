import FleetBoot.Store.Basic

/-! All rows of the database as JSON, for looking at it from outside. -/
namespace FleetBoot.Store

def payloadRow (p : Payload) : Json := .strings [p.id, p.directory]

def imageRow (i : Image) : Json :=
  .array [.string i.tag, .string i.type, .string i.name, .string i.bucket, .string i.cmdline,
    (i.file.map .string).getD .null]

/-- Rows in the order of their text. -/
def sortRows (rows : List Json) : List Json :=
  rows.mergeSort fun a b => a.text < b.text || a.text == b.text

/-- The rows of each table. -/
def tables (s : Store) : List (Table × List Json) :=
  [(.catalog .payload, s.payloads.catalog.map payloadRow),
    (.parameters, s.parameters.map fun p => .strings [p.payloadId, p.name, p.text]),
    (.assignments .payload, s.payloads.assignments.map fun a => .strings [a.mac, a.key]),
    (.networks .payload, s.payloads.networks.map fun n => .strings [n.subnet, n.key]),
    (.catalog .image, s.images.catalog.map imageRow),
    (.assignments .image,
      s.images.assignments.map fun a => .strings [a.mac, a.key.tag, a.key.type]),
    (.networks .image, s.images.networks.map fun n => .strings [n.subnet, n.key.tag, n.key.type])]

/-- The tables that have rows, by name, with their rows in order. -/
def dump (s : Store) : Json :=
  .ofMembers <| (s.tables.filter fun (_, rows) => !rows.isEmpty).map fun (t, rows) =>
    (t.name, .array (sortRows rows))

end FleetBoot.Store
