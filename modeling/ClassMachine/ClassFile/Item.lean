/-
The items of the class file layout: every number and every run of bytes the layout consists of
has a name, and a file that ends too early is reported by the name of the item it ends in.
-/
namespace ClassMachine.ClassFile

/-- An item of the layout, in the order in which the items first occur in a file. -/
inductive Item where
  | magic
  | minorVersion
  | majorVersion
  | poolCount
  | constantTag
  | textLength
  | constantPayload
  | accessFlags
  | thisClass
  | superClass
  | interfaceCount
  | interfaceIndex
  | fieldCount
  | methodCount
  | memberAccessFlags
  | memberNameIndex
  | memberDescriptorIndex
  | attributeCount
  | attributeNameIndex
  | attributeLength
  | attributePayload
  | maxStack
  | maxLocals
  | codeLength
  | code
  | handlerCount
  | handlerStart
  | handlerEnd
  | handlerTarget
  | handlerCatchType
  deriving DecidableEq

/-- The name of the item in messages. -/
def Item.name : Item → String
  | .magic => "magic"
  | .minorVersion => "minor version"
  | .majorVersion => "major version"
  | .poolCount => "constant pool count"
  | .constantTag => "constant tag"
  | .textLength => "utf8 length"
  | .constantPayload => "constant payload"
  | .accessFlags => "access flags"
  | .thisClass => "this class"
  | .superClass => "super class"
  | .interfaceCount => "interface count"
  | .interfaceIndex => "interface index"
  | .fieldCount => "field count"
  | .methodCount => "method count"
  | .memberAccessFlags => "member access flags"
  | .memberNameIndex => "member name index"
  | .memberDescriptorIndex => "member descriptor index"
  | .attributeCount => "attribute count"
  | .attributeNameIndex => "attribute name index"
  | .attributeLength => "attribute length"
  | .attributePayload => "attribute payload"
  | .maxStack => "max stack"
  | .maxLocals => "max locals"
  | .codeLength => "code length"
  | .code => "code"
  | .handlerCount => "exception table length"
  | .handlerStart => "exception start pc"
  | .handlerEnd => "exception end pc"
  | .handlerTarget => "exception handler pc"
  | .handlerCatchType => "exception catch type"

end ClassMachine.ClassFile
