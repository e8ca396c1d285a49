/-
  A plain notation for types, with tokens in place of names.

  * `TypeBuilder.plain`: makes the text of a type, for instance `ref(0x01000003)<Int32>[]`.
-/
import ApiCensus.Signature.Type

namespace ApiCensus

/-- Makes the plain text of a type. -/
def TypeBuilder.plain {σ : Type} : TypeBuilder σ String where
  primitive type := pure type.name
  definition token _ := pure s!"def({token})"
  reference token _ := pure s!"ref({token})"
  specification token _ := pure s!"spec({token})"
  vector element := pure (element ++ "[]")
  array element shape := pure s!"{element}[{shape.rank}]"
  byReference element := pure (element ++ "&")
  pointer element := pure (element ++ "*")
  pinned element := pure ("pinned " ++ element)
  instantiation generic arguments := pure (generic ++ "<" ++ String.intercalate "," arguments ++ ">")
  typeParameter index := pure s!"!{index}"
  methodParameter index := pure s!"!!{index}"
  modified modifier unmodified required :=
    pure (unmodified ++ (if required then " modreq(" else " modopt(") ++ modifier ++ ")")
  functionPointer signature :=
    pure ("fnptr " ++ signature.returnType ++ "(" ++ String.intercalate "," signature.parameters
      ++ ")")

end ApiCensus
