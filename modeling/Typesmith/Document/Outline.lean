import Typesmith.Fragment.Decode

namespace Typesmith.Outline

open Text

inductive Part where
  | root | info | contact | license | components | pathTable | pathItem | operation | parameter
  | requestBody | mediaType | encoding | responseTable | response | header | link | callback
  | exampleValue | schema | schemaUnion | discriminator | markupHint | externalDocs | server
  | serverVariable | tag | securityScheme | flows | flow | textTable | securityRequirement
  deriving DecidableEq, Repr

inductive Slot where
  | any | text | flag | number | count | texts | values | types
  | one (part : Part)
  | list (part : Part)
  | table (part : Part)

namespace Part

def texts (keys : List String) : List (String × Slot) :=
  keys.map (·, .text)

def flags (keys : List String) : List (String × Slot) :=
  keys.map (·, .flag)

def parameterFields : List (String × Slot) :=
  texts ["name", "in", "description", "style"]
    ++ flags ["explode", "allowEmptyValue", "allowReserved", "deprecated", "required"]
    ++ [("schema", .one .schema), ("examples", .table .exampleValue), ("content", .table .mediaType)]

def schemaFields : List (String × Slot) :=
  texts ["title", "format", "description", "pattern"]
    ++ flags ["uniqueItems", "exclusiveMinimum", "exclusiveMaximum", "nullable", "readOnly",
      "writeOnly", "allowEmptyValue", "deprecated"]
    ++ ["minimum", "maximum", "multipleOf"].map (·, .number)
    ++ ["minLength", "maxLength", "minItems", "maxItems", "minProperties", "maxProperties"].map
      (·, .count)
    ++ [("oneOf", .list .schema), ("anyOf", .list .schema), ("allOf", .list .schema),
      ("not", .one .schema), ("type", .types), ("enum", .values), ("externalDocs", .one .externalDocs),
      ("xml", .one .markupHint), ("items", .one .schema), ("required", .texts),
      ("properties", .table .schema), ("additionalProperties", .one .schemaUnion),
      ("discriminator", .one .discriminator)]

def fields : Part → List (String × Slot)
  | root =>
    texts ["openapi"] ++ [("components", .one components), ("info", .one info),
      ("paths", .one pathTable), ("security", .list securityRequirement), ("servers", .list server),
      ("tags", .list tag), ("externalDocs", .one externalDocs)]
  | info =>
    texts ["title", "description", "termsOfService", "version"]
      ++ [("contact", .one contact), ("license", .one license)]
  | contact => texts ["name", "url", "email"]
  | license => texts ["name", "url"]
  | components =>
    [("schemas", .table schema), ("parameters", .table parameter), ("headers", .table header),
      ("requestBodies", .table requestBody), ("responses", .table response),
      ("securitySchemes", .table securityScheme), ("examples", .table exampleValue),
      ("links", .table link), ("callbacks", .table callback)]
  | pathItem =>
    texts ["$ref", "summary", "description"]
      ++ ["connect", "delete", "get", "head", "options", "patch", "post", "put", "trace"].map
        (·, .one operation)
      ++ [("servers", .list server), ("parameters", .list parameter)]
  | operation =>
    texts ["summary", "description", "operationId"] ++ flags ["deprecated"]
      ++ [("tags", .texts), ("parameters", .list parameter), ("requestBody", .one requestBody),
        ("responses", .one responseTable), ("callbacks", .table callback),
        ("security", .list securityRequirement), ("servers", .list server),
        ("externalDocs", .one externalDocs)]
  | parameter => parameterFields
  | header => parameterFields
  | requestBody =>
    texts ["description"] ++ flags ["required"] ++ [("content", .table mediaType)]
  | mediaType =>
    [("schema", .one schema), ("examples", .table exampleValue), ("encoding", .table encoding)]
  | encoding =>
    texts ["contentType", "style"] ++ flags ["explode", "allowReserved"]
      ++ [("headers", .table header)]
  | response =>
    texts ["description"] ++ [("headers", .table header), ("content", .table mediaType),
      ("links", .table link)]
  | link =>
    texts ["operationRef", "operationId", "description"] ++ [("server", .one server)]
  | exampleValue => texts ["summary", "description", "externalValue"]
  | schema => schemaFields
  | schemaUnion => schemaFields
  | discriminator => texts ["propertyName"] ++ [("mapping", .one textTable)]
  | markupHint =>
    texts ["name", "namespace", "prefix"] ++ flags ["attribute", "wrapped"]
  | externalDocs => texts ["description", "url"]
  | server => texts ["url", "description"] ++ [("variables", .table serverVariable)]
  | serverVariable => texts ["default", "description"] ++ [("enum", .texts)]
  | tag => texts ["name", "description"] ++ [("externalDocs", .one externalDocs)]
  | securityScheme =>
    texts ["type", "description", "name", "in", "scheme", "bearerFormat", "openIdConnectUrl"]
      ++ [("flows", .one flows)]
  | flows =>
    ["implicit", "password", "clientCredentials", "authorizationCode"].map (·, .one flow)
  | flow =>
    texts ["authorizationUrl", "tokenUrl", "refreshUrl"] ++ [("scopes", .one textTable)]
  | _ => []

/-- The slot of every field, for parts that are tables of one sort of value; `x-` fields of some of
them are remarks. -/
def entry? (part : Part) (key : String) : Option Slot :=
  match part with
  | pathTable => if startsWith key "x-" then some .any else some (.one pathItem)
  | responseTable => if startsWith key "x-" then some .any else some (.one response)
  | callback => if startsWith key "x-" then some .any else some (.one pathItem)
  | textTable => some .text
  | securityRequirement => some .texts
  | _ => none

def mayRefer : Part → Bool
  | schema | schemaUnion | parameter | header | requestBody | response | exampleValue | link
  | callback | securityScheme => true
  | _ => false

def slot (part : Part) (key : String) : Slot :=
  match part.entry? key with
  | some s => s
  | none =>
    ((part.fields.find? fun f => Fragment.foldKey f.1 == Fragment.foldKey key).map (·.2)).getD .any

end Part

def fitsPlain (slot : Slot) (j : Json) : Bool :=
  match slot, j with
  | _, .null => true
  | .any, _ => true
  | .text, .str _ => true
  | .flag, .bool _ => true
  | .number, .num _ => true
  | .count, .num n => n.isWhole && 0 ≤ n.truncate && n.truncate < Decimal.unsignedBound
  | .texts, j => (Fragment.readTexts j).isSome
  | .values, .arr _ => true
  | .types, j => (Fragment.readTypes [] j).isSome
  | .one .schemaUnion, .bool _ => true
  | _, _ => false

def isReference (part : Part) (fields : List (String × Json)) : Bool :=
  part.mayRefer && (match fields.lookup "$ref" with
    | some (.str s) => s ≠ ""
    | _ => false)

mutual

def fitsFields (part : Part) : List (String × Json) → Bool
  | [] => true
  | (key, .obj fields) :: rest =>
    (match part.slot key with
      | .one inner => isReference inner fields || fitsFields inner fields
      | .table inner => fitsEntries inner fields
      | .any => true
      | _ => false) && fitsFields part rest
  | (key, .arr items) :: rest =>
    (match part.slot key with
      | .list inner => fitsItems inner items
      | slot => fitsPlain slot (.arr items)) && fitsFields part rest
  | (key, j) :: rest => fitsPlain (part.slot key) j && fitsFields part rest

def fitsEntries (part : Part) : List (String × Json) → Bool
  | [] => true
  | (_, .obj fields) :: rest =>
    (isReference part fields || fitsFields part fields) && fitsEntries part rest
  | (_, j) :: rest => j.isNull && fitsEntries part rest

def fitsItems (part : Part) : List Json → Bool
  | [] => true
  | .obj fields :: rest =>
    (isReference part fields || fitsFields part fields) && fitsItems part rest
  | j :: rest => j.isNull && fitsItems part rest

end

def part? (j : Json) (key : String) : Option Json :=
  match j with
  | .obj fields =>
    ((fields.filter fun kv => Fragment.foldKey kv.1 == Fragment.foldKey key && !kv.2.isNull).getLast?).map
      (·.2)
  | _ => none

end Typesmith.Outline
