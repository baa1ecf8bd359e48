/-
# The prelude

The part of the language that is written in the language itself: the class behind array literals.
It is run before the first source of a session.
-/

namespace ScriptVM

/-- The lines of the prelude. -/
def preludeLines : List String :=
  ["// Array literals are built by calling this class with the raw element",
   "// storage and its length.",
   "class Array \x7b",
   "    init(storage, count) \x7b",
   "        self.storage = storage;",
   "        self.count = count;",
   "    \x7d",
   "",
   "    subscript(index) \x7b",
   "        return self.storage(index);",
   "    \x7d",
   "",
   "    get(index) \x7b",
   "        return self.storage(index);",
   "    \x7d",
   "",
   "    append(item) \x7b",
   "        self.storage = _append(self.storage, item);",
   "        self.count = self.count + 1;",
   "    \x7d",
   "",
   "    var isEmpty \x7b",
   "        return self.count == 0;",
   "    \x7d",
   "",
   "    var description \x7b",
   "        return _describe(self.storage);",
   "    \x7d",
   "\x7d",
   ""]

/-- The source of the prelude. -/
def prelude : String :=
  String.intercalate "\n" preludeLines

end ScriptVM
