/-
  WireSchema/Render/TypeDecl.lean
  ===============================
  **How messages are written.**  The body of a message has five sections, in
  this order: options, fields, oneofs, extension ranges, nested types.  Oneofs
  and nested types have a blank line between each two.
-/
import WireSchema.Render.Member
import WireSchema.TypeDecl

namespace WireSchema

/-- A message whose nested types have been written already. -/
def MessageCore.renderWith (core : MessageCore) (nested : List Text) : Text :=
  Text.comment core.documentation ++
    Text.block ("message ".toList ++ core.name.text.toList)
      [ Setting.statements core.settings,
        core.fields.flatMap Field.render,
        Text.paragraphs (core.oneofs.map Oneof.render),
        core.extensionRanges.flatMap ExtensionRange.render,
        Text.paragraphs nested ]

namespace TypeDecl

mutual

def render : TypeDecl → Text
  | .enum decl => decl.render
  | .message core nested => core.renderWith (renderEach nested)

def renderEach : List TypeDecl → List Text
  | [] => []
  | t :: ts => render t :: renderEach ts

end

theorem renderEach_eq_map (ts : List TypeDecl) : renderEach ts = ts.map render := by
  induction ts with
  | nil => rfl
  | cons t ts ih => simp [renderEach, ih]

def renderAll (ts : List TypeDecl) : Text := Text.paragraphs (ts.map render)

end TypeDecl

def Message.render (message : Message) : Text := message.toType.render

end WireSchema
