import MapStyle.Json.Basic
import MapStyle.Stylesheet.Basic

/-!
# What the library says about itself

A program that uses the library can ask for its name and version, for the zoom levels that it
knows, and for the words that rules have where a style leaves something open: the instance of a
property that names none, and the symbolizer of a variable.
-/

namespace MapStyle

/-- The name under which the library reports itself. -/
def libraryName : String := "carto-core"

/-- The version under which the library reports itself. -/
def libraryVersion : String := "0.1.0"

/-- **What the library says about itself**, as JSON. -/
def about : Json :=
  .object [("name", .string libraryName), ("version", .string libraryVersion),
    ("max_zoom", .nat maxZoom), ("all_zooms", .nat Zoom.all.bits),
    ("default_instance", .string Rule.defaultInstance), ("wildcard", .string Rule.wildcard)]

end MapStyle
