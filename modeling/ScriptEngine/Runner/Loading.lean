/-
This file makes programs out of files. The name of a file tells its form: images have a
suffix of their own, and every other file is assembly.
-/

import ScriptEngine.Assembly.Assembler
import ScriptEngine.Image

namespace ScriptEngine

/-- Why a file gives no program. -/
inductive LoadError where
  | notFound
  | assembly (error : Assembly.AssemblyError)
  | image (error : ImageError)
  deriving DecidableEq

/-- The suffix of image files. -/
def imageSuffix : Text := ".grokc"

/-- The suffix of a path: its last name from the last point on. -/
def suffixOf (path : Text) : Text :=
  let lastName := path.reverse.takeWhile (· ≠ 47)
  if lastName.contains 46 then (46 :: (lastName.takeWhile (· ≠ 46)).reverse) else []

/-- The program in a file, given what the file holds. -/
def loadProgram (codec : Image.Codec) (path : Text) (content : Option Text) :
    Except LoadError Program :=
  match content with
  | none => throw .notFound
  | some bytes =>
    if suffixOf path = imageSuffix then (codec.decode bytes).mapError .image
    else (Assembly.assemble bytes).mapError .assembly

end ScriptEngine
