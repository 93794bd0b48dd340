import Didi.Json.Value

/-!
# What a tool answers

* `ContentItem`, `CallToolResult` : the result of a tool, and the JSON that is sent of it.
-/

namespace Didi

structure ContentItem where
  type : String
  text : String := ""
  data : String := ""
  mimeType : String := ""

def ContentItem.toJson (item : ContentItem) : Json :=
  if item.type = "image" then
    .object [("data", .string item.data),
      ("mimeType", .string (if item.mimeType = "" then "image/png" else item.mimeType)), ("type", .string "image")]
  else if item.type = "resource" then
    .object [("resource", .object [("mimeType", .string item.mimeType), ("uri", .string item.text)]),
      ("type", .string "resource")]
  else .object [("text", .string item.text), ("type", .string "text")]

structure CallToolResult where
  content : List ContentItem
  isError : Bool := false
  structuredContent : Option Json := none

/-- An error has no structured payload. -/
def CallToolResult.toJson (result : CallToolResult) : Json :=
  .object ([("content", .array (result.content.map ContentItem.toJson)), ("isError", .boolean result.isError)] ++
    if result.isError then [] else result.structuredContent.toList.map fun payload => ("structuredContent", payload))

end Didi
