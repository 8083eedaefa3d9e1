import Wireframe.Plan.Basic

namespace Wireframe

mutual

def Component.toJson : Component → Json
  | ⟨id, kind, props, children⟩ =>
    .object <|
      [("id", .string id), ("type", .string kind.name), ("props", .object props)] ++
        match children with
        | [] => []
        | c :: rest => [("children", .array (c.toJson :: Component.allToJson rest))]

def Component.allToJson : List Component → List Json
  | [] => []
  | c :: rest => c.toJson :: Component.allToJson rest

end

mutual

def Node.toJson : Node → Json
  | .layout id kind spacing children =>
    .object [
      ("id", .string id), ("type", .string kind.name), ("props", spacing.toJson),
      ("children", .array (Node.allToJson children))]
  | .component c => c.toJson

def Node.allToJson : List Node → List Json
  | [] => []
  | node :: rest => node.toJson :: Node.allToJson rest

end

def Plan.toJson (plan : Plan) : Json :=
  .object [
    ("modificationType", .string plan.modification.name), ("root", plan.root.toNode.toJson)]

end Wireframe
