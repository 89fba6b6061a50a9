import SynthPatch.Expr.Text
import SynthPatch.Patch.Report
/-!
# Patches as documents

A compiled patch is exported as a JSON document that holds all of it but the terms of its
wavetables, its errors and warnings included.

Main results:

- Function {lit}`Patch.document`: the document of a patch.
-/

namespace SynthPatch

/-! ## Parts -/

namespace Header

/-- The header in a document. -/
def document (h : Header) : Json :=
  .ofFields [
    ("shortname", .ofString h.shortname),
    ("longname", .ofString h.longname),
    ("version", .ofString h.version),
    ("author", .ofString h.author),
    ("doc", .ofString h.doc),
    ("type", .ofString h.type)]

end Header

namespace Parameter

/-- A parameter in a document. -/
def document (p : Parameter Float) : Json :=
  .ofFields [
    ("name", .ofString p.name),
    ("type", .ofString p.type.name),
    ("mutable", .bool p.mutable),
    ("step", .ofFloat p.step),
    ("min", .ofFloat p.min),
    ("max", .ofFloat p.max),
    ("default", .ofFloat p.default),
    ("doc", .ofString p.doc)]

end Parameter

namespace ModuleDecl

/-- A module in a document; the wavetable is left out where there is none. -/
def document (m : ModuleDecl) : Json :=
  .ofFields <| [("id", .ofString m.id), ("type", .ofString m.kind.tag)] ++
    m.table.toList.map fun table => ("table", .ofString table)

end ModuleDecl

namespace Endpoint

/-- An endpoint in a document. -/
def document (e : Endpoint) : Json :=
  .ofFields [("module", .ofString e.module), ("port", .ofString e.port)]

end Endpoint

namespace Cable

/-- A cable in a document. -/
def document (c : Cable) : Json :=
  .ofFields [("from", c.source.document), ("to", c.target.document)]

end Cable

namespace Tweak

/-- A tweak in a document. -/
def document (t : Tweak Float) : Json :=
  .ofFields [
    ("module", .ofString t.target.module),
    ("param", .ofString t.target.port),
    ("expression", t.value.document)]

end Tweak

/-! ## Patches -/

namespace Patch

/-- One side of the controls in a document, by name. -/
def controlDocument (p : Patch Float) (side : Control Float → Json) : Json :=
  .ofFields (p.controls.toList.map fun (name, c) => (name, side c))

/-- The document of a patch. -/
def document (p : Patch Float) : Json :=
  .ofFields [
    ("synth", p.header.document),
    ("parameters", .array (p.parameters.map Parameter.document)),
    ("modules", .array (p.modules.map ModuleDecl.document)),
    ("patches", .array (p.cables.map Cable.document)),
    ("envelopes", .array (p.envelopes.map Cable.document)),
    ("tweaks", .array (p.tweaks.map Tweak.document)),
    ("maxima", p.controlDocument fun c => .ofFloat c.max),
    ("minima", p.controlDocument fun c => .ofFloat c.min),
    ("defaults", p.controlDocument fun c => .ofFloat c.default),
    ("mutable", p.controlDocument fun c => .bool c.mutable),
    ("errors", .array (p.errors.map fun e => .ofString e.message)),
    ("warnings", .array (p.warnings.map fun w => .ofString w.message))]

/-- The text of the document of a patch. -/
def documentText (p : Patch Float) : String :=
  p.document.pretty

end Patch
end SynthPatch
