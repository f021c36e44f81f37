import ContractGuard.Code.Node

/-!
# The listing of a function

One line a node under a heading with the function's name. Byte constants appear in
hexadecimal digits, other payloads in their plain form; a function with a payload
that has none cannot be listed.
-/

namespace ContractGuard

def Payload.listed : Payload → Option String
  | .bytes bs => some (Text.hexBytes bs)
  | p => p.plain

def Node.line : Node → Option String
  | const dest ty value =>
    return "  " ++ dest ++ " = const " ++ ty.name ++ " " ++ (← value.listed)
  | loadParam dest name ty => return "  " ++ dest ++ " = param " ++ ty.name ++ " " ++ name
  | convert dest src fromTy toTy mode =>
    return "  " ++ dest ++ " = convert." ++ mode.name ++ " " ++ src ++ " : " ++ fromTy.name ++
      " -> " ++ toTy.name
  | binary dest op left right ty =>
    return "  " ++ dest ++ " = " ++ op.name ++ " " ++ ty.name ++ " " ++ left ++ ", " ++ right
  | clamp dest src lower upper ty abort =>
    return "  " ++ dest ++ " = clamp " ++ ty.name ++ " " ++ src ++ " [" ++ (← lower.plain) ++
      ", " ++ (← upper.plain) ++ "] abort " ++ abort.name
  | zeroCheck src ty abort =>
    return "  check_nonzero " ++ ty.name ++ " " ++ src ++ " abort " ++ abort.name
  | ret none => return "  return"
  | ret (some value) => return "  return " ++ value
  | node => return "  <unknown node " ++ node.kindName ++ ">"

namespace CompiledFunction

def lines (f : CompiledFunction) : Option (List String) :=
  return ("fn " ++ f.name ++ ":") :: (← f.nodes.mapM Node.line)

def listing (f : CompiledFunction) : Option String := return "\n".intercalate (← f.lines)

end CompiledFunction

end ContractGuard
